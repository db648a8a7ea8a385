import ColumnarRecords.Proofs.Column.RoundTrip
import ColumnarRecords.Proofs.Message.Depth
import ColumnarRecords.Proofs.Wire.Grammar

/-!
# What the column of a single value can be

Which bytes are one value of a kind, and which value (`Column.Spells`): a varint, four or eight
bytes, or a length and a content of as many bytes. What a number on the wire denotes is said by
arithmetic (`Kind.Denotes`), without the words of the reader.

A column of a single field that is no group decodes exactly if it is one such value, and the field
holds the value then; of all other columns the first fault from the left is reported
(`Column.Misspells`), bytes after a value coming last (`Column.decodeField_exact`). What is written
for a value is read back with one exception: a message that is nested deeper than the limit of the
reader can be written and not be read (`Column.decodeField_deep`).
-/

namespace ColumnarRecords

open Descriptor Wire

/-- The number of a varint or of fixed bytes denotes a value of a plain kind. Numbers too large for
the kind are cut to its low bits, and those of signed kinds are taken around zero. -/
def Descriptor.Scalar.Denotes : Scalar → Nat → Value → Prop
  | .int64, n, .i64 v | .sfixed64, n, .i64 v => v.toInt = (n : Int).bmod (2 ^ 64)
  | .int32, n, .i32 v | .sfixed32, n, .i32 v => v.toInt = (n : Int).bmod (2 ^ 32)
  | .uint64, n, .u64 v | .fixed64, n, .u64 v | .double, n, .f64 v => v.toNat = n
  | .uint32, n, .u32 v => v.toNat = n % 2 ^ 32
  | .fixed32, n, .u32 v | .float, n, .f32 v => v.toNat = n
  | .sint32, n, .i32 v => v.toInt = zigzagOf (n % 2 ^ 32)
  | .sint64, n, .i64 v => v.toInt = zigzagOf n
  | .bool, n, .bool b => b = true ↔ n ≠ 0
  | _, _, _ => False

/-- The number of a varint or of fixed bytes denotes a value of a kind. An enum value is any number
of 32 bits, known or not. -/
def Descriptor.Kind.Denotes : Kind → Nat → Value → Prop
  | .scalar s, n, v => s.Denotes n v
  | .enum _, n, .enum v => v.toInt = (n : Int).bmod (2 ^ 32)
  | _, _, _ => False

/-- The content of what is delimited is a value of a kind: a text by its UTF-8, the bytes
themselves, or a message by what it decodes to. -/
def Descriptor.Kind.Contains (p : Pool) : Kind → List UInt8 → Value → Prop
  | .scalar .string, content, .string s => Text.Utf8.encode s = content
  | .scalar .bytes, content, .bytes b => b = content
  | .message index, content, .message m => Message.decode p index content = .ok m
  | _, _, _ => False

namespace Column

/-- The content of what is delimited is not one of a kind. -/
inductive Refuses (p : Pool) : Kind → List UInt8 → Fault → Prop
  /-- A text is not UTF-8. -/
  | notUtf8 {content : List UInt8} {fault : Text.Utf8.Fault}
      (text : Text.Utf8.decode content = .error fault) :
      Refuses p (.scalar .string) content (.notUtf8 fault)
  /-- A message does not decode. -/
  | nested {index : Nat} {content : List UInt8} {fault : Wire.Fault}
      (body : Message.decode p index content = .error fault) :
      Refuses p (.message index) content (.nested fault)

/-- The bytes are exactly one value of a kind. -/
inductive Spells (p : Pool) (kind : Kind) : List UInt8 → Value → Prop
  /-- One varint. -/
  | varint {bytes : List UInt8} {v : Value} (type : kind.wireType = .varint)
      (varint : IsVarint bytes) (value : kind.Denotes (sevens bytes) v) : Spells p kind bytes v
  /-- Four bytes. -/
  | fixed32 {bytes : List UInt8} {v : Value} (type : kind.wireType = .fixed32)
      (length : bytes.length = 4) (value : kind.Denotes (ofLittleEndian bytes) v) :
      Spells p kind bytes v
  /-- Eight bytes. -/
  | fixed64 {bytes : List UInt8} {v : Value} (type : kind.wireType = .fixed64)
      (length : bytes.length = 8) (value : kind.Denotes (ofLittleEndian bytes) v) :
      Spells p kind bytes v
  /-- A varint and as many bytes as it says. -/
  | delimited {length content : List UInt8} {v : Value} (type : kind.wireType = .lengthDelimited)
      (varint : IsVarint length) (count : sevens length = content.length)
      (value : kind.Contains p content v) : Spells p kind (length ++ content) v

/-- The bytes start with no value of a kind, and this is the fault that comes first. -/
inductive Misspells (p : Pool) (kind : Kind) : List UInt8 → Fault → Prop
  /-- There has to be a varint and is none. -/
  | invalidVarint {input : List UInt8}
      (type : kind.wireType = .varint ∨ kind.wireType = .lengthDelimited)
      (none : ∀ v rest, input = v ++ rest → ¬IsVarint v) : Misspells p kind input .invalidVarint
  /-- There are not four bytes. -/
  | truncated32 {input : List UInt8} (type : kind.wireType = .fixed32) (short : input.length < 4) :
      Misspells p kind input (.truncated 4 input.length)
  /-- There are not eight bytes. -/
  | truncated64 {input : List UInt8} (type : kind.wireType = .fixed64) (short : input.length < 8) :
      Misspells p kind input (.truncated 8 input.length)
  /-- There are not as many bytes as the length says. -/
  | truncated {length rest : List UInt8} (type : kind.wireType = .lengthDelimited)
      (varint : IsVarint length) (short : rest.length < sevens length) :
      Misspells p kind (length ++ rest) (.truncated (sevens length) rest.length)
  /-- The content is not one of the kind. -/
  | content {length content rest : List UInt8} {fault : Fault}
      (type : kind.wireType = .lengthDelimited) (varint : IsVarint length)
      (count : sevens length = content.length) (refused : Refuses p kind content fault) :
      Misspells p kind (length ++ (content ++ rest)) fault

end Column

/-! ## What numbers denote -/

section Denotes

/-- The signed number of the low 32 bits of a word. -/
theorem toInt_low32 (n : UInt64) : (low32 n).toInt = (n.toNat : Int).bmod (2 ^ 32) := by
  show (n.toBitVec.setWidth 32).toInt = _
  rw [BitVec.toInt_setWidth]
  rfl

/-- The signed number of a word of 64 bits. -/
theorem toInt_toInt64 (n : UInt64) : n.toInt64.toInt = (n.toNat : Int).bmod (2 ^ 64) :=
  BitVec.toInt_eq_toNat_bmod n.toBitVec

/-- The signed number of a word of 32 bits. -/
theorem toInt_toInt32 (n : UInt32) : n.toInt32.toInt = (n.toNat : Int).bmod (2 ^ 32) :=
  BitVec.toInt_eq_toNat_bmod n.toBitVec

/-- A number denotes one value of a plain kind. -/
theorem Descriptor.Scalar.Denotes.unique {s : Scalar} {n : Nat} {v v' : Value}
    (h : s.Denotes n v) (h' : s.Denotes n v') : v = v' := by
  cases s <;> cases v <;> first | exact h.elim | skip
  all_goals cases v' <;> first | exact h'.elim | skip
  case int64.i64.i64 | sfixed64.i64.i64 | sint64.i64.i64 =>
    exact congrArg Value.i64 (Int64.toInt_inj.1 (h.trans h'.symm))
  case int32.i32.i32 | sfixed32.i32.i32 | sint32.i32.i32 =>
    exact congrArg Value.i32 (Int32.toInt_inj.1 (h.trans h'.symm))
  case uint64.u64.u64 | fixed64.u64.u64 =>
    exact congrArg Value.u64 (UInt64.toNat_inj.1 (h.trans h'.symm))
  case uint32.u32.u32 | fixed32.u32.u32 =>
    exact congrArg Value.u32 (UInt32.toNat_inj.1 (h.trans h'.symm))
  case double.f64.f64 => exact congrArg Value.f64 (UInt64.toNat_inj.1 (h.trans h'.symm))
  case float.f32.f32 => exact congrArg Value.f32 (UInt32.toNat_inj.1 (h.trans h'.symm))
  case bool.bool.bool => exact congrArg Value.bool (Bool.eq_iff_iff.2 (h.trans h'.symm))

/-- A number denotes one value of a kind. -/
theorem Descriptor.Kind.Denotes.unique {kind : Kind} {n : Nat} {v v' : Value}
    (h : kind.Denotes n v) (h' : kind.Denotes n v') : v = v' := by
  cases kind with
  | scalar s => exact Scalar.Denotes.unique h h'
  | message index => exact h.elim
  | enum index =>
    cases v <;> first | exact h.elim | skip
    cases v' <;> first | exact h'.elim | skip
    exact congrArg Value.enum (Int32.toInt_inj.1 (h.trans h'.symm))

namespace Column

variable (p : Pool) {kind : Kind}

/-- A kind of varints is read as a varint, and the value is what its number denotes. -/
theorem readValue_of_varint (h : kind.wireType = .varint) :
    ∃ toValue : UInt64 → Value,
      (readValue p kind = Wire.andThen readVarint fun n rest => .ok (toValue n, rest)) ∧
      ∀ n, kind.Denotes n.toNat (toValue n) := by
  have hcoded : ∀ toValue : UInt64 → Value, readCoded (.varint toValue) =
      Wire.andThen readVarint fun n rest => .ok (toValue n, rest) := by
    intro toValue
    funext input
    simp only [readCoded, Wire.andThen]
    cases readVarint input <;> rfl
  cases kind with
  | message index => cases h
  | enum index => exact ⟨_, hcoded fun n => .enum (low32 n), fun n => toInt_low32 n⟩
  | scalar s =>
    cases s <;> first | exact absurd h (by decide) | skip
    case int64 => exact ⟨_, hcoded _, fun n => toInt_toInt64 n⟩
    case uint64 => exact ⟨_, hcoded _, fun n => rfl⟩
    case int32 => exact ⟨_, hcoded _, fun n => toInt_low32 n⟩
    case bool =>
      refine ⟨_, hcoded _, fun n => ?_⟩
      show (n != 0) = true ↔ n.toNat ≠ 0
      rw [bne_iff_ne, Ne, ← UInt64.toNat_inj]
      rfl
    case uint32 => exact ⟨_, hcoded _, fun n => UInt64.toNat_toUInt32 n⟩
    case sint32 =>
      refine ⟨_, hcoded _, fun n => ?_⟩
      show (unzigzag32 n.toUInt32).toInt = zigzagOf (n.toNat % 2 ^ 32)
      rw [toInt_unzigzag32, UInt64.toNat_toUInt32]
    case sint64 => exact ⟨_, hcoded _, fun n => toInt_unzigzag64 n⟩

/-- A kind of four bytes is read as four bytes, and the value is what their number denotes. -/
theorem readValue_of_fixed32 (h : kind.wireType = .fixed32) :
    ∃ toValue : UInt32 → Value,
      (readValue p kind = Wire.andThen (readBytes 4) fun bytes rest =>
        .ok (toValue (.ofNat (ofLittleEndian bytes)), rest)) ∧
      ∀ n, kind.Denotes n.toNat (toValue n) := by
  have hcoded : ∀ toValue : UInt32 → Value, readCoded (.fixed32 toValue) =
      Wire.andThen (readBytes 4) fun bytes rest =>
        .ok (toValue (.ofNat (ofLittleEndian bytes)), rest) := by
    intro toValue
    funext input
    simp only [readCoded, readFixed32, Wire.andThen]
    cases readBytes 4 input <;> rfl
  cases kind with
  | message index => cases h
  | enum index => cases h
  | scalar s =>
    cases s <;> first | exact absurd h (by decide) | skip
    case float => exact ⟨_, hcoded _, fun n => rfl⟩
    case fixed32 => exact ⟨_, hcoded _, fun n => rfl⟩
    case sfixed32 => exact ⟨fun n => .i32 n.toInt32, hcoded _, fun n => toInt_toInt32 n⟩

/-- A kind of eight bytes is read as eight bytes, and the value is what their number denotes. -/
theorem readValue_of_fixed64 (h : kind.wireType = .fixed64) :
    ∃ toValue : UInt64 → Value,
      (readValue p kind = Wire.andThen (readBytes 8) fun bytes rest =>
        .ok (toValue (.ofNat (ofLittleEndian bytes)), rest)) ∧
      ∀ n, kind.Denotes n.toNat (toValue n) := by
  have hcoded : ∀ toValue : UInt64 → Value, readCoded (.fixed64 toValue) =
      Wire.andThen (readBytes 8) fun bytes rest =>
        .ok (toValue (.ofNat (ofLittleEndian bytes)), rest) := by
    intro toValue
    funext input
    simp only [readCoded, readFixed64, Wire.andThen]
    cases readBytes 8 input <;> rfl
  cases kind with
  | message index => cases h
  | enum index => cases h
  | scalar s =>
    cases s <;> first | exact absurd h (by decide) | skip
    case double => exact ⟨_, hcoded _, fun n => rfl⟩
    case fixed64 => exact ⟨_, hcoded _, fun n => rfl⟩
    case sfixed64 => exact ⟨fun n => .i64 n.toInt64, hcoded _, fun n => toInt_toInt64 n⟩

/-- The value that the content of what is delimited is read as. -/
def readContent (kind : Kind) (content : List UInt8) : Except Fault Value :=
  match kind with
  | .scalar .string =>
    match Text.Utf8.decode content with
    | .error f => .error (.notUtf8 f)
    | .ok s => .ok (.string s)
  | .message index => (decodeMessage p index content).map .message
  | _ => .ok (.bytes content)

/-- A delimited kind is read as what is delimited, and then its content. -/
theorem readValue_of_delimited (h : kind.wireType = .lengthDelimited) :
    readValue p kind = Wire.andThen readDelimited
      (fun content rest => (readContent p kind content).map fun v => (v, rest)) := by
  funext input
  unfold Wire.andThen
  cases kind with
  | enum index => cases h
  | scalar s =>
    cases s <;> first | exact absurd h (by decide) | skip
    case string =>
      simp only [readValue, Scalar.coding, readCoded, readContent]
      cases readDelimited input with
      | error f => rfl
      | ok r => cases hr : Text.Utf8.decode r.1 <;> simp only [hr] <;> rfl
    case bytes =>
      simp only [readValue, Scalar.coding, readCoded, readContent]
      cases readDelimited input <;> rfl
  | message index =>
    simp only [readValue, readContent]
    cases readDelimited input with
    | error f => rfl
    | ok r => cases hr : decodeMessage p index r.1 <;> simp only [hr] <;> rfl

/-- A content is read exactly as the value that it contains. -/
theorem readContent_eq_ok_iff (h : kind.wireType = .lengthDelimited) {content : List UInt8}
    {v : Value} : readContent p kind content = .ok v ↔ kind.Contains p content v := by
  cases kind with
  | enum index => cases h
  | scalar s =>
    cases s <;> first | exact absurd h (by decide) | skip
    case string =>
      cases v with
      | string s =>
        show _ ↔ Text.Utf8.encode s = content
        rw [← Text.Utf8.decode_eq_ok_iff, readContent]
        cases Text.Utf8.decode content <;> simp
      | _ =>
        rw [readContent]
        cases Text.Utf8.decode content <;> simp [Kind.Contains]
    case bytes =>
      unfold readContent
      cases v <;> simp [Kind.Contains, eq_comm]
  | message index =>
    unfold readContent decodeMessage
    cases hdecode : Message.decode p index content with
    | error f => cases v <;> simp [Kind.Contains, hdecode, Except.map]
    | ok m => cases v <;> simp [Kind.Contains, hdecode, Except.map]

/-- A content is a fault exactly if the kind refuses it. -/
theorem readContent_eq_error_iff {content : List UInt8} {fault : Fault} :
    readContent p kind content = .error fault ↔ Refuses p kind content fault := by
  constructor
  · intro h
    unfold readContent at h
    split at h
    · split at h
      · rename_i f hf
        obtain rfl := Except.error.inj h
        exact .notUtf8 hf
      · cases h
    · rename_i index
      unfold decodeMessage at h
      cases hdecode : Message.decode p index content with
      | error f =>
        rw [hdecode] at h
        obtain rfl := Except.error.inj h
        exact .nested hdecode
      | ok m =>
        rw [hdecode] at h
        cases h
    · cases h
  · rintro (htext | hbody)
    · simp only [readContent, htext]
    · simp only [readContent, decodeMessage, hbody]
      rfl

end Column

end Denotes

/-! ## Readers of columns -/

namespace Column

/-- A varint is read exactly if the bytes start with one. -/
theorem readVarint_eq_ok_iff {n : UInt64} {input rest : List UInt8} :
    readVarint input = .ok (n, rest) ↔
      ∃ v, input = v ++ rest ∧ IsVarint v ∧ n.toNat = sevens v := by
  rw [← Wire.readVarint_eq_ok_iff, readVarint]
  cases Wire.readVarint input <;> simp

/-- There is one fault of varints, and it is that of bytes which start with none. -/
theorem readVarint_eq_error_iff {input : List UInt8} {fault : Fault} :
    readVarint input = .error fault ↔
      fault = .invalidVarint ∧ ∀ v rest, input = v ++ rest → ¬IsVarint v := by
  rw [← Wire.readVarint_eq_error_iff, readVarint]
  cases Wire.readVarint input <;> simp [eq_comm]

/-- As many bytes as asked for are read exactly if there are. -/
theorem readBytes_eq_ok_iff {count : Nat} {input bytes rest : List UInt8} :
    readBytes count input = .ok (bytes, rest) ↔ input = bytes ++ rest ∧ bytes.length = count := by
  constructor
  · intro h
    unfold readBytes at h
    split at h
    · cases h
    · rename_i hlen
      obtain ⟨rfl, rfl⟩ := Prod.mk.inj (Except.ok.inj h)
      exact ⟨(List.take_append_drop count input).symm,
        List.length_take_of_le (Nat.le_of_not_lt hlen)⟩
  · rintro ⟨rfl, hlen⟩
    exact readBytes_append hlen rest

/-- Bytes that are missing are a fault that says how many there are. -/
theorem readBytes_eq_error_iff {count : Nat} {input : List UInt8} {fault : Fault} :
    readBytes count input = .error fault ↔
      input.length < count ∧ fault = .truncated count input.length := by
  unfold readBytes
  split
  · rename_i hlen
    simp [hlen, eq_comm]
  · rename_i hlen
    simp [hlen]

/-- A length and as many bytes are read exactly if the bytes start with them. -/
theorem readDelimited_eq_ok_iff {input content rest : List UInt8} :
    readDelimited input = .ok (content, rest) ↔
      ∃ length, input = length ++ (content ++ rest) ∧ IsVarint length ∧
        sevens length = content.length := by
  constructor
  · intro h
    unfold readDelimited at h
    cases hread : readVarint input with
    | error f =>
      rw [hread] at h
      cases h
    | ok r =>
      rw [hread] at h
      obtain ⟨length, rfl, hvarint, hn⟩ := readVarint_eq_ok_iff.1 hread
      obtain ⟨hrest, hlen⟩ := readBytes_eq_ok_iff.1 h
      exact ⟨length, by rw [hrest], hvarint, by rw [hlen, hn]⟩
  · rintro ⟨length, rfl, hvarint, hcount⟩
    rw [readDelimited, readVarint_eq_ok_iff.2 ⟨length, rfl, hvarint, hvarint.toNat_word⟩]
    exact readBytes_eq_ok_iff.2 ⟨rfl, by rw [hvarint.toNat_word, hcount]⟩

/-- What is delimited fails for its length or for the bytes that are missing. -/
theorem readDelimited_eq_error_iff {input : List UInt8} {fault : Fault} :
    readDelimited input = .error fault ↔
      (fault = .invalidVarint ∧ ∀ v rest, input = v ++ rest → ¬IsVarint v) ∨
      ∃ length rest, input = length ++ rest ∧ IsVarint length ∧ rest.length < sevens length ∧
        fault = .truncated (sevens length) rest.length := by
  constructor
  · intro h
    unfold readDelimited at h
    cases hread : readVarint input with
    | error f =>
      rw [hread] at h
      obtain rfl := Except.error.inj h
      exact .inl (readVarint_eq_error_iff.1 hread)
    | ok r =>
      rw [hread] at h
      obtain ⟨length, rfl, hvarint, hn⟩ := readVarint_eq_ok_iff.1 hread
      obtain ⟨hshort, rfl⟩ := readBytes_eq_error_iff.1 h
      rw [hn] at hshort ⊢
      exact .inr ⟨length, r.2, rfl, hvarint, hshort, rfl⟩
  · rintro (hvarint | ⟨length, rest, rfl, hvarint, hshort, rfl⟩)
    · rw [readDelimited, readVarint_eq_error_iff.2 hvarint]
    · have hword := hvarint.toNat_word
      rw [readDelimited, readVarint_eq_ok_iff.2 ⟨length, rfl, hvarint, hword⟩]
      exact readBytes_eq_error_iff.2 ⟨by rw [hword]; exact hshort, by rw [hword]⟩

/-! ## Values of columns -/

variable {p : Pool} {kind : Kind}

/-- Four bytes are a word of 32 bits. -/
theorem toNat_ofLittleEndian32 {bytes : List UInt8} (h : bytes.length = 4) :
    (UInt32.ofNat (ofLittleEndian bytes)).toNat = ofLittleEndian bytes := by
  have hlt := ofLittleEndian_lt bytes
  rw [h] at hlt
  rw [UInt32.toNat_ofNat', Nat.mod_eq_of_lt hlt]

/-- Eight bytes are a word of 64 bits. -/
theorem toNat_ofLittleEndian64 {bytes : List UInt8} (h : bytes.length = 8) :
    (UInt64.ofNat (ofLittleEndian bytes)).toNat = ofLittleEndian bytes := by
  have hlt := ofLittleEndian_lt bytes
  rw [h] at hlt
  rw [UInt64.toNat_ofNat', Nat.mod_eq_of_lt hlt]

/-- A value has a byte. -/
theorem Spells.ne_nil {bytes : List UInt8} {v : Value} (h : Spells p kind bytes v) :
    bytes ≠ [] := by
  cases h with
  | varint htype hvarint hvalue =>
    rintro rfl
    exact not_isVarintAt_nil 0 hvarint
  | fixed32 htype hlen hvalue | fixed64 htype hlen hvalue =>
    rintro rfl
    cases hlen
  | delimited htype hvarint hcount hvalue =>
    intro hnil
    obtain ⟨rfl, -⟩ := List.append_eq_nil_iff.1 hnil
    exact not_isVarintAt_nil 0 hvarint

/-- A value that bytes are is read, whatever follows them. -/
theorem readValue_of_spells {bytes : List UInt8} {v : Value} (h : Spells p kind bytes v)
    (rest : List UInt8) : readValue p kind (bytes ++ rest) = .ok (v, rest) := by
  cases h with
  | varint htype hvarint hvalue =>
    obtain ⟨toValue, hread, hdenotes⟩ := readValue_of_varint p htype
    have hword : readVarint (bytes ++ rest) = .ok (.ofNat (sevens bytes), rest) :=
      readVarint_eq_ok_iff.2 ⟨bytes, rfl, hvarint, hvarint.toNat_word⟩
    have hdenoted := hdenotes (.ofNat (sevens bytes))
    rw [hvarint.toNat_word] at hdenoted
    rw [hread, Wire.andThen, hword, hvalue.unique hdenoted]
  | fixed32 htype hlen hvalue =>
    obtain ⟨toValue, hread, hdenotes⟩ := readValue_of_fixed32 p htype
    have hdenoted := hdenotes (.ofNat (ofLittleEndian bytes))
    rw [toNat_ofLittleEndian32 hlen] at hdenoted
    rw [hread, Wire.andThen, readBytes_append hlen, hvalue.unique hdenoted]
  | fixed64 htype hlen hvalue =>
    obtain ⟨toValue, hread, hdenotes⟩ := readValue_of_fixed64 p htype
    have hdenoted := hdenotes (.ofNat (ofLittleEndian bytes))
    rw [toNat_ofLittleEndian64 hlen] at hdenoted
    rw [hread, Wire.andThen, readBytes_append hlen, hvalue.unique hdenoted]
  | @delimited length content _ htype hvarint hcount hvalue =>
    have hcontent : readDelimited (length ++ content ++ rest) = .ok (content, rest) :=
      readDelimited_eq_ok_iff.2 ⟨length, List.append_assoc _ _ _, hvarint, hcount⟩
    rw [readValue_of_delimited p htype, Wire.andThen, hcontent]
    simp only [(readContent_eq_ok_iff p htype).2 hvalue]
    rfl

/-- A fault of bytes that start with no value is the one that is reported. -/
theorem readValue_of_misspells {input : List UInt8} {fault : Fault}
    (h : Misspells p kind input fault) : readValue p kind input = .error fault := by
  cases h with
  | invalidVarint htype hnone =>
    rcases htype with htype | htype
    · obtain ⟨toValue, hread, -⟩ := readValue_of_varint p htype
      rw [hread, andThen_eq_error]
      exact .inl (readVarint_eq_error_iff.2 ⟨rfl, hnone⟩)
    · rw [readValue_of_delimited p htype, andThen_eq_error]
      exact .inl (readDelimited_eq_error_iff.2 (.inl ⟨rfl, hnone⟩))
  | truncated32 htype hshort =>
    obtain ⟨toValue, hread, -⟩ := readValue_of_fixed32 p htype
    rw [hread, andThen_eq_error]
    exact .inl (readBytes_eq_error_iff.2 ⟨hshort, rfl⟩)
  | truncated64 htype hshort =>
    obtain ⟨toValue, hread, -⟩ := readValue_of_fixed64 p htype
    rw [hread, andThen_eq_error]
    exact .inl (readBytes_eq_error_iff.2 ⟨hshort, rfl⟩)
  | @truncated length rest htype hvarint hshort =>
    rw [readValue_of_delimited p htype, andThen_eq_error]
    exact .inl (readDelimited_eq_error_iff.2 (.inr ⟨length, rest, rfl, hvarint, hshort, rfl⟩))
  | @content length content rest _ htype hvarint hcount hrefused =>
    have hcontent : readDelimited (length ++ (content ++ rest)) = .ok (content, rest) :=
      readDelimited_eq_ok_iff.2 ⟨length, rfl, hvarint, hcount⟩
    rw [readValue_of_delimited p htype, andThen_eq_error]
    refine .inr ⟨content, rest, hcontent, ?_⟩
    rw [(readContent_eq_error_iff p).2 hrefused]
    rfl

/-- Bytes start with a value of a kind, or there is a first fault. -/
theorem spells_or_misspells (p : Pool) (kind : Kind) (input : List UInt8) :
    (∃ bytes rest v, input = bytes ++ rest ∧ Spells p kind bytes v) ∨
      ∃ fault, Misspells p kind input fault := by
  cases htype : kind.wireType with
  | varint =>
    cases hread : readVarint input with
    | error fault =>
      obtain ⟨-, hnone⟩ := readVarint_eq_error_iff.1 hread
      exact .inr ⟨.invalidVarint, .invalidVarint (.inl htype) hnone⟩
    | ok r =>
      obtain ⟨toValue, -, hdenotes⟩ := readValue_of_varint p htype
      obtain ⟨bytes, hinput, hvarint, hn⟩ := readVarint_eq_ok_iff.1 hread
      exact .inl ⟨bytes, r.2, toValue r.1, hinput, .varint htype hvarint (hn ▸ hdenotes r.1)⟩
  | fixed32 =>
    cases hread : readBytes 4 input with
    | error fault =>
      obtain ⟨hshort, -⟩ := readBytes_eq_error_iff.1 hread
      exact .inr ⟨_, .truncated32 htype hshort⟩
    | ok r =>
      obtain ⟨toValue, -, hdenotes⟩ := readValue_of_fixed32 p htype
      obtain ⟨hinput, hlen⟩ := readBytes_eq_ok_iff.1 hread
      have hvalue := hdenotes (.ofNat (ofLittleEndian r.1))
      rw [toNat_ofLittleEndian32 hlen] at hvalue
      exact .inl ⟨r.1, r.2, _, hinput, .fixed32 htype hlen hvalue⟩
  | fixed64 =>
    cases hread : readBytes 8 input with
    | error fault =>
      obtain ⟨hshort, -⟩ := readBytes_eq_error_iff.1 hread
      exact .inr ⟨_, .truncated64 htype hshort⟩
    | ok r =>
      obtain ⟨toValue, -, hdenotes⟩ := readValue_of_fixed64 p htype
      obtain ⟨hinput, hlen⟩ := readBytes_eq_ok_iff.1 hread
      have hvalue := hdenotes (.ofNat (ofLittleEndian r.1))
      rw [toNat_ofLittleEndian64 hlen] at hvalue
      exact .inl ⟨r.1, r.2, _, hinput, .fixed64 htype hlen hvalue⟩
  | lengthDelimited =>
    cases hread : readDelimited input with
    | error fault =>
      obtain ⟨-, hnone⟩ | ⟨length, rest, rfl, hvarint, hshort, -⟩ :=
        readDelimited_eq_error_iff.1 hread
      · exact .inr ⟨.invalidVarint, .invalidVarint (.inr htype) hnone⟩
      · exact .inr ⟨_, .truncated htype hvarint hshort⟩
    | ok r =>
      obtain ⟨length, hinput, hvarint, hcount⟩ := readDelimited_eq_ok_iff.1 hread
      cases hcontent : readContent p kind r.1 with
      | error fault =>
        have hrefused := (readContent_eq_error_iff p).1 hcontent
        rw [hinput]
        exact .inr ⟨fault, .content htype hvarint hcount hrefused⟩
      | ok v =>
        have hvalue := (readContent_eq_ok_iff p htype).1 hcontent
        refine .inl ⟨length ++ r.1, r.2, v, ?_, .delimited htype hvarint hcount hvalue⟩
        rw [hinput, List.append_assoc]
  -- No kind has the type of a group.
  | startGroup | endGroup =>
    cases kind with
    | scalar s => cases s <;> cases htype
    | message index => cases htype
    | enum index => cases htype

/-- A value of a kind is read exactly if the bytes start with one. -/
theorem readValue_eq_ok_iff {input rest : List UInt8} {v : Value} :
    readValue p kind input = .ok (v, rest) ↔
      ∃ bytes, input = bytes ++ rest ∧ Spells p kind bytes v := by
  constructor
  · intro h
    rcases spells_or_misspells p kind input with ⟨bytes, rest', v', rfl, hspells⟩ | ⟨fault, hfault⟩
    · rw [readValue_of_spells hspells] at h
      obtain ⟨rfl, rfl⟩ := Prod.mk.inj (Except.ok.inj h)
      exact ⟨bytes, rfl, hspells⟩
    · rw [readValue_of_misspells hfault] at h
      cases h
  · rintro ⟨bytes, rfl, hspells⟩
    exact readValue_of_spells hspells rest

/-- A fault of a kind is the first one of bytes that start with no value. -/
theorem readValue_eq_error_iff {input : List UInt8} {fault : Fault} :
    readValue p kind input = .error fault ↔ Misspells p kind input fault := by
  constructor
  · intro h
    rcases spells_or_misspells p kind input with ⟨bytes, rest, v, rfl, hspells⟩ | ⟨fault', hfault⟩
    · rw [readValue_of_spells hspells] at h
      cases h
    · rw [readValue_of_misspells hfault] at h
      obtain rfl := Except.error.inj h
      exact hfault
  · exact readValue_of_misspells

/-- Bytes are read as a whole exactly if they are one value. -/
theorem readWhole_eq_ok_iff {bytes : List UInt8} {v : Value} :
    readWhole (readValue p kind) bytes = .ok v ↔ Spells p kind bytes v := by
  rw [readWhole]
  constructor
  · intro h
    cases hread : readValue p kind bytes with
    | error fault =>
      rw [hread] at h
      cases h
    | ok r =>
      obtain ⟨v', rest⟩ := r
      rw [hread] at h
      simp only at h
      split at h
      · rename_i hnil
        obtain ⟨value, rfl, hspells⟩ := readValue_eq_ok_iff.1 hread
        obtain rfl := Except.ok.inj h
        rwa [hnil, List.append_nil]
      · cases h
  · intro hspells
    have hread := readValue_of_spells hspells []
    rw [List.append_nil] at hread
    rw [hread]
    rfl

section Single

variable {t : MessageType} {f : Field} (hsingle : f.arity = .single) (hgroup : f.isGroup = false)
  {bytes : List UInt8} {m : Message}
include hsingle hgroup

/-- The column of a single field decodes exactly if it is one value, which the field has then. -/
theorem decodeField_eq_ok_iff {m' : Message} :
    decodeField p t f bytes m = .ok m' ↔ ∃ v, Spells p f.kind bytes v ∧ m' = m.assign t f v := by
  rw [decodeField_eq, readField_eq_readWhole hsingle hgroup]
  constructor
  · intro h
    obtain ⟨v, hread, rfl⟩ := map_eq_ok.1 h
    exact ⟨v, readWhole_eq_ok_iff.1 hread, rfl⟩
  · rintro ⟨v, hspells, rfl⟩
    rw [readWhole_eq_ok_iff.2 hspells]
    rfl

/-- The column of a single field fails with the fault of its value, or for the bytes after it. -/
theorem decodeField_eq_error_iff {fault : Fault} :
    decodeField p t f bytes m = .error fault ↔
      Misspells p f.kind bytes fault ∨
        ∃ value rest v, bytes = value ++ rest ∧ Spells p f.kind value v ∧ rest ≠ [] ∧
          fault = .trailingBytes rest.length := by
  rw [decodeField_eq, readField_eq_readWhole hsingle hgroup, readWhole]
  constructor
  · intro h
    cases hread : readValue p f.kind bytes with
    | error fault' =>
      rw [hread] at h
      obtain rfl := Except.error.inj h
      exact .inl (readValue_eq_error_iff.1 hread)
    | ok r =>
      obtain ⟨v, rest⟩ := r
      rw [hread] at h
      simp only at h
      split at h
      · cases h
      · rename_i hne
        obtain ⟨value, rfl, hspells⟩ := readValue_eq_ok_iff.1 hread
        exact .inr ⟨value, rest, v, rfl, hspells, hne, (Except.error.inj h).symm⟩
  · rintro (hfault | ⟨value, rest, v, rfl, hspells, hne, rfl⟩)
    · rw [readValue_of_misspells hfault]
      rfl
    · rw [readValue_of_spells hspells]
      simp only [if_neg hne]
      rfl

/-- What is written for a value is decoded to it, if the message that it may be is decoded from its
encoded form. -/
theorem decodeField_encodeBare_of_decode {form : EntryForm} {N : Nat → Message → Prop}
    (hdecode : ∀ index g, N index g → (g.encode form p index).length < 2 ^ 64 →
      Message.decode p index (g.encode form p index) = .ok (g.trim form p index))
    {v : Value} (hv : f.kind.Accepts N v)
    (hlen : (f.encodeBare (v.bodies form p f.kind)).length < 2 ^ 64) :
    decodeField p t f (f.encodeBare (v.bodies form p f.kind)) m =
      .ok (m.assign t f (v.trim form p f.kind)) := by
  rw [encodeBare_of_not_isClosed (Field.isClosed_eq_false hgroup), bodies_of_accepts hv,
    List.flatMap_singleton] at hlen ⊢
  have hread := readValue_delimit_of_decode hdecode hv hlen []
  rw [List.append_nil] at hread
  rw [decodeField_eq, readField_eq_readWhole hsingle hgroup, readWhole, hread]
  rfl

end Single

/-- A value that is no message has nothing to trim. -/
theorem trim_of_plain {form : EntryForm} {v : Value} (hv : kind.Accepts (fun _ _ => False) v) :
    v.trim form p kind = v := by
  cases kind with
  | scalar s => exact Value.trim_of_scalar hv _
  | message index => cases v <;> exact hv.elim
  | enum index =>
    cases v with
    | enum n => rfl
    | _ => exact hv.elim

/-- The column of a single field that is no group decodes exactly if it is one value of the kind, and
then the field holds the value; otherwise the fault that comes first is reported, that of a value
before that of bytes after it. Every value that is no message is read back from what is written for
it, and so is every message nested within the limit, in whichever order its maps are written and
whether or not of their entries the parts are left out that need not be there. -/
theorem decodeField_exact {set : List UInt8} {name : String} {s : Schema}
    (hset : Schema.ofDescriptorSet set name = .ok s) (t : MessageType) {f : Field}
    (hsingle : f.arity = .single) (hgroup : f.isGroup = false) (m : Message) :
    (∀ bytes m', decodeField s.pool t f bytes m = .ok m' ↔
      ∃ v, Spells s.pool f.kind bytes v ∧ m' = m.assign t f v ∧ m'.get f = v) ∧
    (∀ bytes fault, decodeField s.pool t f bytes m = .error fault ↔
      Misspells s.pool f.kind bytes fault ∨
        ∃ value rest v, bytes = value ++ rest ∧ Spells s.pool f.kind value v ∧ rest ≠ [] ∧
          fault = .trailingBytes rest.length) ∧
    (∀ form v, f.kind.Accepts (fun _ _ => False) v →
      (f.encodeBare (v.bodies form s.pool f.kind)).length < 2 ^ 64 →
        decodeField s.pool t f (f.encodeBare (v.bodies form s.pool f.kind)) m =
          .ok (m.assign t f v)) ∧
    (∀ form index g, f.kind = .message index →
      g.IsOf s.pool Field.HoldsSome nestingLimit index →
      (f.encodeBare ((Value.message g).bodies form s.pool f.kind)).length < 2 ^ 64 →
        decodeField s.pool t f (f.encodeBare ((Value.message g).bodies form s.pool f.kind)) m =
          .ok (m.assign t f (.message (g.trim form s.pool index)))) := by
  refine ⟨fun bytes m' => ?_, fun bytes fault => decodeField_eq_error_iff hsingle hgroup,
    fun form v hv hlen => ?_, fun form index g hkind hg hlen => ?_⟩
  · rw [decodeField_eq_ok_iff hsingle hgroup]
    constructor
    · rintro ⟨v, hspells, rfl⟩
      exact ⟨v, hspells, rfl, Message.get_assign_self t f v m⟩
    · rintro ⟨v, hspells, hm', -⟩
      exact ⟨v, hspells, hm'⟩
  · have hdecode := decodeField_encodeBare_of_decode (p := s.pool) (t := t) (m := m) hsingle hgroup
      (fun _ _ hnone => hnone.elim) hv hlen
    rwa [trim_of_plain hv] at hdecode
  · have hsound := Schema.sound_of_ofDescriptorSet hset
    have hv : f.kind.Accepts (Message.IsOf s.pool Field.HoldsSome nestingLimit) (.message g) := by
      rw [hkind]
      exact hg
    have hdecode := decodeField_encodeBare_of_decode (t := t) (m := m) hsingle hgroup
      (fun _ _ hm hlen => Message.decode_encode_of_isOf hsound hm hlen) hv hlen
    rw [hdecode, hkind]
    rfl

/-- The nested field of the regular message holds the message that its column is, and reports a column
that is cut off. -/
theorem decodeField_exact_regular :
    Schema.ofDescriptorSet Sample.regularSet "a.A" = .ok Sample.regular ∧
      Sample.nested.arity = .single ∧ Sample.nested.isGroup = false ∧
      decodeField Sample.regular.pool Sample.regular.type Sample.nested [2, 34, 0] .empty =
        .ok ⟨[(4, .value (.message (Sample.chain 1)))]⟩ ∧
      decodeField Sample.regular.pool Sample.regular.type Sample.nested [2, 34] .empty =
        .error (.truncated 2 1) := by
  have hset := Sample.ofDescriptorSet_regularSet
  obtain ⟨-, hfault, -, hmessage⟩ :=
    decodeField_exact hset Sample.regular.type (f := Sample.nested) rfl rfl .empty
  have hbytes : Sample.nested.encodeBare ((Value.message (Sample.chain 1)).bodies .full
      Sample.regular.pool Sample.nested.kind) = [2, 34, 0] := by cbv
  have hread := hmessage .full 0 (Sample.chain 1) rfl (Sample.isOf_chain (by decide))
    (by rw [hbytes]; decide)
  rw [hbytes] at hread
  have htwo : IsVarint [2] := ⟨[], 2, rfl, by simp, by decide, by decide, by simp⟩
  have hcut : Misspells Sample.regular.pool Sample.nested.kind ([2] ++ [34]) (.truncated 2 1) :=
    .truncated rfl htwo (by decide)
  exact ⟨hset, rfl, rfl, hread, (hfault _ _).2 (.inl hcut)⟩

/-- A message that is nested deeper than the limit is written to a column that is not decoded. -/
theorem decodeField_deep :
    Schema.ofDescriptorSet Sample.regularSet "a.A" = .ok Sample.regular ∧
      Sample.nested ∈ Sample.regular.fields ∧ Sample.nested.arity = .single ∧
      Sample.nested.isGroup = false ∧
      Sample.nested.kind.Accepts (Message.IsOf Sample.regular.pool Field.HoldsSome 101)
        (.message (Sample.chain 101)) ∧
      decodeField Sample.regular.pool Sample.regular.type Sample.nested
        (Sample.nested.encodeBare ((Value.message (Sample.chain 101)).bodies .full
          Sample.regular.pool Sample.nested.kind)) .empty = .error (.nested .recursionLimit) := by
  refine ⟨Sample.ofDescriptorSet_regularSet, ?_, rfl, rfl,
    Sample.isOf_chain (Nat.le_refl 101), ?_⟩
  · exact (FieldTable.find?_eq_some_iff.1 (show Sample.regular.type.fields.find? 4 = _ from rfl)).1
  · have hshort : ((Sample.chain 101).encode .full Sample.regular.pool 0).length < 2 ^ 64 := by
      have hle := Sample.length_encode_chain (show 101 ≤ 4096 by decide)
      omega
    have hdecode := Message.decode_chain (show nestingLimit < 101 by decide) hshort
    have hcontent := readDelimited_of_read (readDelimited_encodeDelimited hshort [])
    obtain ⟨length, hbytes, hvarint, hcount⟩ := readDelimited_eq_ok_iff.1 hcontent
    have hbare : Sample.nested.encodeBare ((Value.message (Sample.chain 101)).bodies .full
        Sample.regular.pool Sample.nested.kind) =
          length ++ ((Sample.chain 101).encode .full Sample.regular.pool 0 ++ []) := by
      rw [← hbytes, List.append_nil, encodeBare_of_not_isClosed rfl]
      simp only [Sample.nested, Sample.field, Value.bodies, List.flatMap_singleton, Kind.delimit]
    rw [hbare, decodeField_eq_error_iff rfl rfl]
    exact .inl (.content rfl hvarint hcount (.nested hdecode))

end Column

end ColumnarRecords

import ColumnarRecords.Proofs.Descriptor.Sound
import ColumnarRecords.Proofs.Message.Entry

/-!
# Columns are sequences of values

A column holds values one after another, and nothing between them. If its bytes are values that are
delimited as the wire type of the field wants (`Wire.IsValue`), then decoding the column is decoding
one value after another into the message (`Column.decodeField_flatten`): every value is read the
same whatever follows it, faults in its content included.
-/

namespace ColumnarRecords

open Descriptor

/-- The bytes are one value of a wire type, and nothing else. What a delimited value holds is not
looked at. -/
def Wire.IsValue (w : WireType) (v : List UInt8) : Prop :=
  match w with
  | .varint => ∃ n, readVarint v = .ok (n, [])
  | .fixed64 => v.length = 8
  | .lengthDelimited => ∃ content, readDelimited v = .ok (content, [])
  | .fixed32 => v.length = 4
  | .startGroup | .endGroup => False

/-- A value has a byte. -/
theorem Wire.IsValue.ne_nil {w : WireType} {v : List UInt8} (h : IsValue w v) : v ≠ [] := by
  rintro rfl
  cases w with
  | varint => obtain ⟨n, hn⟩ := h; cases hn
  | lengthDelimited => obtain ⟨content, hc⟩ := h; cases hc
  | fixed64 | fixed32 => cases h
  | startGroup | endGroup => exact h

namespace Column

/-- A reader takes the value that a column starts with, and reads the same whatever follows. -/
def Reads {α : Type} (read : Reader α) (v : List UInt8) : Prop :=
  ∀ rest, read (v ++ rest) = (read v).map fun r => (r.1, rest)

/-- A reader takes a value if it comes to the same outcome whatever follows. -/
theorem Reads.of_outcome {α : Type} {read : Reader α} {v : List UInt8} (x : Except Fault α)
    (h : ∀ rest, read (v ++ rest) = x.map fun a => (a, rest)) : Reads read v := by
  intro rest
  have hself := h []
  rw [List.append_nil] at hself
  rw [h, hself]
  cases x <;> rfl

/-- A varint is taken. -/
theorem readVarint_append {v : List UInt8} {n : UInt64} (h : Wire.readVarint v = .ok (n, []))
    (rest : List UInt8) : readVarint (v ++ rest) = .ok (n, rest) := by
  rw [readVarint, Wire.local_readVarint.append h]

/-- As many bytes as there are are taken. -/
theorem readBytes_append {v : List UInt8} {count : Nat} (h : v.length = count)
    (rest : List UInt8) : readBytes count (v ++ rest) = .ok (v, rest) := by
  rw [readBytes, if_neg (by rw [List.length_append]; omega), List.take_left' h, List.drop_left' h]

/-- The content of what is delimited is taken. -/
theorem readDelimited_append {v content : List UInt8}
    (h : Wire.readDelimited v = .ok (content, [])) (rest : List UInt8) :
    readDelimited (v ++ rest) = .ok (content, rest) := by
  obtain ⟨n, hlen, hn⟩ := Wire.readVarint_of_readDelimited h
  obtain ⟨used, rfl, hused⟩ := Wire.local_readVarint v n content hn
  rw [List.append_assoc, readDelimited, readVarint, hused]
  exact readBytes_append hlen rest

/-- A coded value is taken. -/
theorem reads_readCoded (coding : Coding) {v : List UInt8} (h : Wire.IsValue coding.wireType v) :
    Reads (readCoded coding) v := by
  cases coding with
  | varint toValue =>
    obtain ⟨n, hn⟩ := h
    refine .of_outcome (.ok (toValue n)) fun rest => ?_
    simp only [readCoded, readVarint_append hn]
    rfl
  | fixed32 toValue =>
    refine .of_outcome (.ok (toValue (.ofNat (Wire.ofLittleEndian v)))) fun rest => ?_
    simp only [readCoded, readFixed32, readBytes_append h]
    rfl
  | fixed64 toValue =>
    refine .of_outcome (.ok (toValue (.ofNat (Wire.ofLittleEndian v)))) fun rest => ?_
    simp only [readCoded, readFixed64, readBytes_append h]
    rfl
  | text =>
    obtain ⟨content, hc⟩ := h
    cases hdecode : Text.Utf8.decode content with
    | error f =>
      refine .of_outcome (.error (.notUtf8 f)) fun rest => ?_
      simp only [readCoded, readDelimited_append hc, hdecode]
      rfl
    | ok s =>
      refine .of_outcome (.ok (.string s)) fun rest => ?_
      simp only [readCoded, readDelimited_append hc, hdecode]
      rfl
  | bytes =>
    obtain ⟨content, hc⟩ := h
    refine .of_outcome (.ok (.bytes content)) fun rest => ?_
    simp only [readCoded, readDelimited_append hc]
    rfl

/-- The wire format reads the same coded value, or fails too. -/
theorem read_append (coding : Coding) {v : List UInt8} (h : Wire.IsValue coding.wireType v)
    (rest : List UInt8) :
    (coding.read (v ++ rest)).toOption =
      ((readCoded coding v).map fun r => (r.1, rest)).toOption := by
  rw [← reads_readCoded coding h]
  -- The two readers differ in the faults of texts and of lengths only.
  cases coding with
  | varint toValue =>
    obtain ⟨n, hn⟩ := h
    simp only [readCoded, readVarint_append hn, Coding.read, Wire.andThen,
      Wire.local_readVarint.append hn]
    rfl
  | fixed32 toValue =>
    have hread : Wire.readFixed32 (v ++ rest) = .ok (.ofNat (Wire.ofLittleEndian v), rest) := by
      rw [Wire.readFixed32, if_neg (by rw [List.length_append, show v.length = 4 from h]; omega),
        List.take_left' h, List.drop_left' h]
    simp only [readCoded, readFixed32, readBytes_append h, Coding.read, Wire.andThen, hread]
    rfl
  | fixed64 toValue =>
    have hread : Wire.readFixed64 (v ++ rest) = .ok (.ofNat (Wire.ofLittleEndian v), rest) := by
      rw [Wire.readFixed64, if_neg (by rw [List.length_append, show v.length = 8 from h]; omega),
        List.take_left' h, List.drop_left' h]
    simp only [readCoded, readFixed64, readBytes_append h, Coding.read, Wire.andThen, hread]
    rfl
  | text =>
    obtain ⟨content, hc⟩ := h
    simp only [readCoded, readDelimited_append hc, Coding.read, Wire.andThen,
      Wire.readText_eq_andThen, Wire.local_readDelimited.append hc, Wire.textOf]
    cases Text.Utf8.decode content <;> rfl
  | bytes =>
    obtain ⟨content, hc⟩ := h
    simp only [readCoded, readDelimited_append hc, Coding.read, Wire.andThen,
      Wire.local_readDelimited.append hc]
    rfl

/-- A value of a kind is taken. -/
theorem reads_readValue (p : Pool) (kind : Kind) {v : List UInt8}
    (h : Wire.IsValue kind.wireType v) : Reads (readValue p kind) v := by
  cases kind with
  | scalar s => exact reads_readCoded s.coding (s.wireType_coding ▸ h)
  | enum index => exact reads_readCoded enumCoding h
  | message index =>
    obtain ⟨content, hc⟩ := h
    refine .of_outcome ((decodeMessage p index content).map .message) fun rest => ?_
    simp only [readValue, readDelimited_append hc]
    cases decodeMessage p index content <;> rfl

/-- The key and the value of a message that is an entry of a map. -/
def entryOf (t : MessageType) (m : Message) : Except Fault (MapKey × Value) :=
  match Message.entryOf t m with
  | some e => .ok e
  | none => .error .invalidMapKey

/-- An entry of a map is made of what is delimited. -/
theorem readEntry_eq_andThen (p : Pool) (entry : Nat) :
    readEntry p entry = Wire.andThen readDelimited fun content rest =>
      ((decodeMessage p entry content).bind (entryOf (p.message entry))).map
        fun e => (e, rest) := by
  funext input
  unfold readEntry Wire.andThen
  cases readDelimited input with
  | error f => rfl
  | ok r =>
    simp only
    cases decodeMessage p entry r.1 with
    | error f => rfl
    | ok m =>
      simp only [Except.bind, entryOf, Message.entryOf]
      cases (p.message entry).fields.find? 1 with
      | none => rfl
      | some keyField =>
        cases (p.message entry).fields.find? 2 with
        | none => rfl
        | some valueField =>
          simp only
          cases MapKey.ofValue? (m.get keyField) <;> rfl

/-- An entry of a map is its content's. -/
theorem readEntry_append (p : Pool) (entry : Nat) {v content : List UInt8}
    (hc : Wire.readDelimited v = .ok (content, [])) (rest : List UInt8) :
    readEntry p entry (v ++ rest) =
      ((decodeMessage p entry content).bind (entryOf (p.message entry))).map
        fun e => (e, rest) := by
  rw [readEntry_eq_andThen, Wire.andThen, readDelimited_append hc]

/-- An entry of a map is taken. -/
theorem reads_readEntry (p : Pool) (entry : Nat) {v : List UInt8}
    (h : Wire.IsValue .lengthDelimited v) : Reads (readEntry p entry) v := by
  obtain ⟨content, hc⟩ := h
  exact .of_outcome _ (readEntry_append p entry hc)

section ReadAll

variable {α : Type} {read : Reader α} {v : List UInt8}

/-- A value that is taken is read first, and what follows it after it. -/
theorem readAll_append (h : Reads read v) (hne : v ≠ []) (rest : List UInt8) :
    readAll read (v ++ rest) =
      match read v with
      | .error f => .error f
      | .ok (a, _) => (readAll read rest).map (a :: ·) := by
  have hpos := List.length_pos_iff.2 hne
  rw [readAll, if_neg (by simp [hne]), h rest]
  cases read v with
  | error f => rfl
  | ok r =>
    simp only [Except.map]
    rw [if_pos (by rw [List.length_append]; omega)]

/-- All of one value is this value. -/
theorem readAll_value (h : Reads read v) (hne : v ≠ []) :
    readAll read v = (read v).map fun r => [r.1] := by
  have hall := readAll_append h hne []
  rw [List.append_nil] at hall
  rw [hall]
  cases read v with
  | error f => rfl
  | ok r =>
    simp only
    rw [readAll, if_pos rfl]
    rfl

/-- Putting all values of a column into a message is putting in one after another, if putting in
values together is putting in the first and then the others. -/
theorem readAll_flatten (put : Message → List α → Message)
    (hput : ∀ m a as, put (put m [a]) as = put m (a :: as)) {values : List (List UInt8)}
    (hne : values ≠ []) (h : ∀ v ∈ values, Reads read v ∧ v ≠ []) (m : Message) :
    (readAll read values.flatten).map (put m) =
      values.foldlM (fun m v => (readAll read v).map (put m)) m := by
  induction values generalizing m with
  | nil => exact absurd rfl hne
  | cons v rest ih =>
    obtain ⟨hreads, hv⟩ := h v List.mem_cons_self
    rw [List.flatten_cons, List.foldlM_cons, readAll_append hreads hv, readAll_value hreads hv]
    cases read v with
    | error f => rfl
    | ok r =>
      show ((readAll read rest.flatten).map (r.1 :: ·)).map (put m) =
        rest.foldlM (fun m v => (readAll read v).map (put m)) (put m [r.1])
      -- A column without bytes is read apart, so whether this value is the last makes a difference.
      cases rest with
      | nil =>
        rw [List.flatten_nil, readAll, if_pos rfl]
        rfl
      | cons v' rest' =>
        rw [← ih (List.cons_ne_nil _ _) (fun u hu => h u (List.mem_cons_of_mem _ hu)) (put m [r.1])]
        cases readAll read (v' :: rest').flatten with
        | error f => rfl
        | ok as => exact congrArg Except.ok (hput m r.1 as).symm

end ReadAll

/-- The columns of a field hold values of its wire type: as many as there are for a list or a map,
one at most otherwise. -/
structure IsColumn (f : Field) (values : List (List UInt8)) : Prop where
  /-- Each is a value of the wire type. -/
  isValue : ∀ v ∈ values, Wire.IsValue f.kind.wireType v
  /-- A single field has one value at most. -/
  single : f.arity = .single → values.length ≤ 1

/-- A message with values decoded into a field one after another. -/
def decodeValues (p : Pool) (t : MessageType) (f : Field) (values : List (List UInt8))
    (m : Message) : Except Fault Message :=
  values.foldlM (fun m v => decodeField p t f v m) m

/-- A value is decoded first, and the others after it. -/
theorem decodeValues_cons (p : Pool) (t : MessageType) (f : Field) (v : List UInt8)
    (values : List (List UInt8)) (m : Message) :
    decodeValues p t f (v :: values) m = (decodeField p t f v m).bind (decodeValues p t f values) :=
  List.foldlM_cons

/-- A single value that is no group is the whole column, whatever the message is. -/
theorem readField_eq_readWhole {p : Pool} {f : Field} (harity : f.arity = .single)
    (hgroup : f.isGroup = false) (bytes : List UInt8) (m : Message) :
    readField p f bytes m = readWhole (readValue p f.kind) bytes := by
  simp only [readField, harity, readSingle, hgroup]
  cases f.kind <;> rfl

/-- The values of a list are appended, whatever the message is. -/
theorem decodeField_of_list {p : Pool} {t : MessageType} {f : Field} (harity : f.arity = .list)
    (hgroup : f.isGroup = false) (bytes : List UInt8) (m : Message) :
    decodeField p t f bytes m =
      (readAll (readValue p f.kind) bytes).map fun values =>
        m.assign t f (.list (listOf m f ++ values)) := by
  simp only [decodeField_eq, readField, harity, hgroup, Bool.false_eq_true, if_false]
  cases readAll (readValue p f.kind) bytes <;> rfl

/-- The entries of a map are put in, whatever the message is. -/
theorem decodeField_of_map {p : Pool} {t : MessageType} {f : Field} {entry : Nat}
    (harity : f.arity = .map entry) (bytes : List UInt8) (m : Message) :
    decodeField p t f bytes m =
      (readAll (readEntry p entry) bytes).map fun entries =>
        m.assign t f (.map (insertAll entries (mapOf m f))) := by
  simp only [decodeField_eq, readField, harity]
  cases readAll (readEntry p entry) bytes <;> rfl

/-- Decoding a column is decoding one of its values after another. -/
theorem decodeField_flatten {p : Pool} {t : MessageType} {f : Field} (hf : f.Sound)
    (hgroup : f.isGroup = false) {values : List (List UInt8)} (h : IsColumn f values)
    (hne : values ≠ []) (m : Message) :
    decodeField p t f values.flatten m = decodeValues p t f values m := by
  unfold decodeValues
  cases harity : f.arity with
  | single =>
    have hpos := List.length_pos_iff.2 hne
    obtain ⟨v, rfl⟩ := List.length_eq_one_iff.1 (Nat.le_antisymm (h.single harity) hpos)
    rw [List.flatten_singleton, List.foldlM_cons]
    cases decodeField p t f v m <;> rfl
  | list =>
    simp only [decodeField_of_list harity hgroup]
    refine readAll_flatten (fun m values => m.assign t f (.list (listOf m f ++ values)))
      (fun m a as => ?_) hne
      (fun v hv => ⟨reads_readValue p f.kind (h.isValue v hv), (h.isValue v hv).ne_nil⟩) m
    rw [Message.assign_assign, listOf_assign, List.append_assoc]
    rfl
  | map entry =>
    have hkind : f.kind = .message entry := hf.map entry harity
    have hvalue : ∀ v ∈ values, Wire.IsValue .lengthDelimited v := by
      intro v hv
      have hv' := h.isValue v hv
      rwa [hkind] at hv'
    simp only [decodeField_of_map harity]
    refine readAll_flatten
      (fun m entries => m.assign t f (.map (insertAll entries (mapOf m f)))) (fun m a as => ?_) hne
      (fun v hv => ⟨reads_readEntry p entry (hvalue v hv), (hvalue v hv).ne_nil⟩) m
    rw [Message.assign_assign, mapOf_assign]
    rfl

end Column

end ColumnarRecords

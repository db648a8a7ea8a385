import ColumnarRecords.Proofs.Column.Values

/-!
# Values are told apart

Nothing but the values themselves tells where one ends in a column. A reader separates the first
value from what follows it (`Column.Separates`) if it takes at least a byte and what it reads
depends on the bytes that it takes alone. The readers of a column do, whatever the bytes are
(`Column.separates_readValue`, `Column.separates_readEntry`), so reading all values of bytes that
are put together is reading those of the first bytes and then those of the others
(`Column.Separates.readAll_append`).

`Wire.Local` is this for the readers of the wire format, whose faults are others.
-/

namespace ColumnarRecords.Column

open Descriptor

section Reader

variable {α β : Type}

/-- A reader takes at least a byte, and it reads the same whatever follows the bytes it takes. -/
structure Separates (read : Reader α) : Prop where
  /-- What follows does not matter. -/
  isLocal : Wire.Local read
  /-- A byte is taken. -/
  length_lt : ∀ {input a rest}, read input = .ok (a, rest) → rest.length < input.length

/-- What is made of a value takes no further bytes. -/
theorem local_of_value (x : Except Fault α) :
    Wire.Local fun rest : List UInt8 => x.map fun a => (a, rest) := by
  cases x with
  | error f => exact Wire.local_error f
  | ok a => exact Wire.local_pure a

/-- A reader that goes on after one that separates does too. -/
theorem Separates.andThen {first : Reader α} {second : α → Reader β} (hfirst : Separates first)
    (hsecond : ∀ a, Wire.Local (second a)) : Separates (Wire.andThen first second) := by
  refine ⟨hfirst.isLocal.andThen hsecond, fun h => ?_⟩
  obtain ⟨a, middle, ha, hb⟩ := Wire.andThen_eq_ok.1 h
  exact Nat.lt_of_le_of_lt ((hsecond a).length_le hb) (hfirst.length_lt ha)

/-- A reader whose value is made of that of one that separates does too. -/
theorem Separates.ofValue {first : Reader α} (hfirst : Separates first) {read : Reader β}
    (toValue : α → Except Fault β)
    (h : ∀ input, read input = Wire.andThen first
      (fun a rest => (toValue a).map fun b => (b, rest)) input) : Separates read := by
  rw [funext h]
  exact hfirst.andThen fun a => local_of_value (toValue a)

/-- Varints are told apart from what follows. -/
theorem separates_readVarint : Separates readVarint := by
  have hok : ∀ {input : List UInt8} {r : UInt64 × List UInt8},
      readVarint input = .ok r ↔ Wire.readVarint input = .ok r := by
    intro input r
    unfold readVarint
    cases Wire.readVarint input <;> simp
  constructor
  case isLocal =>
    intro input n rest h
    obtain ⟨used, hused, hsame⟩ := Wire.local_readVarint input n rest (hok.1 h)
    exact ⟨used, hused, fun tail => hok.2 (hsame tail)⟩
  case length_lt =>
    intro input n rest h
    exact Wire.readVarint_length_lt (hok.1 h)

/-- Reading a number of bytes is local. -/
theorem local_readBytes (count : Nat) : Wire.Local (readBytes count) :=
  Wire.local_take count (fun input => Fault.truncated count input.length) id

/-- A number of bytes is told apart from what follows, if there is one. -/
theorem separates_readBytes {count : Nat} (h : 0 < count) : Separates (readBytes count) := by
  refine ⟨local_readBytes count, fun {input bytes rest} hr => ?_⟩
  unfold readBytes at hr
  split at hr
  · cases hr
  · obtain ⟨-, rfl⟩ := Prod.mk.inj (Except.ok.inj hr)
    rw [List.length_drop]
    omega

/-- What is delimited is told apart from what follows. -/
theorem separates_readDelimited : Separates readDelimited := by
  have heq : readDelimited = Wire.andThen readVarint fun n => readBytes n.toNat := by
    funext input
    unfold readDelimited Wire.andThen
    cases readVarint input <;> rfl
  rw [heq]
  exact separates_readVarint.andThen fun n => local_readBytes n.toNat

/-- Coded values are told apart from what follows. -/
theorem separates_readCoded (coding : Coding) : Separates (readCoded coding) := by
  cases coding with
  | varint toValue =>
    refine separates_readVarint.ofValue (fun n => .ok (toValue n)) fun input => ?_
    unfold readCoded Wire.andThen
    cases readVarint input <;> rfl
  | fixed32 toValue =>
    refine (separates_readBytes (by decide : 0 < 4)).ofValue
      (fun bytes => .ok (toValue (.ofNat (Wire.ofLittleEndian bytes)))) fun input => ?_
    unfold readCoded readFixed32 Wire.andThen
    cases readBytes 4 input <;> rfl
  | fixed64 toValue =>
    refine (separates_readBytes (by decide : 0 < 8)).ofValue
      (fun bytes => .ok (toValue (.ofNat (Wire.ofLittleEndian bytes)))) fun input => ?_
    unfold readCoded readFixed64 Wire.andThen
    cases readBytes 8 input <;> rfl
  | text =>
    refine separates_readDelimited.ofValue
      (fun content => ((Text.Utf8.decode content).mapError .notUtf8).map .string)
      fun input => ?_
    unfold readCoded Wire.andThen
    cases readDelimited input with
    | error f => rfl
    | ok r => cases h : Text.Utf8.decode r.1 <;> simp only [h] <;> rfl
  | bytes =>
    refine separates_readDelimited.ofValue (fun content => .ok (.bytes content)) fun input => ?_
    unfold readCoded Wire.andThen
    cases readDelimited input <;> rfl

/-- Values of a kind are told apart from what follows. -/
theorem separates_readValue (p : Pool) (kind : Kind) : Separates (readValue p kind) := by
  cases kind with
  | scalar s => exact separates_readCoded s.coding
  | enum index => exact separates_readCoded enumCoding
  | message index =>
    refine separates_readDelimited.ofValue
      (fun content => (decodeMessage p index content).map .message) fun input => ?_
    unfold readValue Wire.andThen
    cases readDelimited input with
    | error f => rfl
    | ok r => cases h : decodeMessage p index r.1 <;> simp only [h] <;> rfl

/-- Entries of a map are told apart from what follows. -/
theorem separates_readEntry (p : Pool) (entry : Nat) : Separates (readEntry p entry) := by
  rw [readEntry_eq_andThen]
  exact separates_readDelimited.andThen fun content => local_of_value _

/-- All values of bytes, if values are told apart. -/
theorem Separates.readAll_eq {read : Reader α} (h : Separates read) (input : List UInt8) :
    readAll read input =
      if input = [] then .ok []
      else
        match read input with
        | .error f => .error f
        | .ok (a, rest) => (readAll read rest).map (a :: ·) := by
  rw [readAll]
  split
  · rfl
  · cases hread : read input with
    | error f => rfl
    | ok r => exact if_pos (h.length_lt hread)

/-- If all values of some bytes can be read, then what is read of these bytes with others after them
is these values and then what is read of the others. -/
theorem Separates.readAll_append {read : Reader α} (h : Separates read) {bytes : List UInt8}
    {values : List α} (hvalues : readAll read bytes = .ok values) (more : List UInt8) :
    readAll read (bytes ++ more) = (readAll read more).map (values ++ ·) := by
  induction bytes using readAll.induct read generalizing values with
  | case1 =>
    rw [readAll, if_pos rfl] at hvalues
    obtain rfl := Except.ok.inj hvalues
    cases hmore : readAll read more <;> simp [hmore, Except.map]
  | case2 bytes hne f hread =>
    rw [h.readAll_eq, if_neg hne, hread] at hvalues
    cases hvalues
  | case3 bytes hne a rest hread hlt ih =>
    rw [h.readAll_eq, if_neg hne, hread] at hvalues
    obtain ⟨others, hothers, rfl⟩ := map_eq_ok.1 hvalues
    obtain ⟨used, hused, hsame⟩ := h.isLocal bytes a rest hread
    have hfirst : read (bytes ++ more) = .ok (a, rest ++ more) := by
      rw [hused, List.append_assoc]
      exact hsame (rest ++ more)
    rw [h.readAll_eq, if_neg (by simp [hne])]
    simp only [hfirst, ih hothers]
    cases readAll read more <;> rfl
  | case4 bytes hne a rest hread hnlt => exact absurd (h.length_lt hread) hnlt

end Reader

end ColumnarRecords.Column

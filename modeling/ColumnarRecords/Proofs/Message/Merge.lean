import ColumnarRecords.Column.Field
import ColumnarRecords.Proofs.Message.Assign
import ColumnarRecords.Proofs.Wire.Limit

/-!
# Merging in place

Merging a field takes the bytes of the field and looks no further (`Message.local_readField`), and
does the same under a higher nesting limit unless it gives up under the lower one
(`Message.readField_agree`). So a nested message that is merged in the midst of others is the same
as one that is decoded by itself, although the latter may be nested deeper.

Both are shown for one field reader after another, each of them in the form of a composition
(`readCoded_eq_expecting` up to `readFieldWith_of_none`), of which the parts are known. The value of a
map's entry may be of any arity and is merged as the value of a field is (`readValue_eq`), so what
is shown of values is by induction on how deep entries stand in each other.
-/

namespace ColumnarRecords

open Descriptor Wire

/-- The wire type of a value of a coding. -/
def Coding.wireType : Coding → WireType
  | .varint _ => .varint
  | .fixed32 _ => .fixed32
  | .fixed64 _ => .fixed64
  | .text => .lengthDelimited
  | .bytes => .lengthDelimited

/-- Reads a value of a coding. -/
def Coding.read : Coding → Reader Value
  | .varint toValue => andThen readVarint fun n rest => .ok (toValue n, rest)
  | .fixed32 toValue => andThen readFixed32 fun n rest => .ok (toValue n, rest)
  | .fixed64 toValue => andThen readFixed64 fun n rest => .ok (toValue n, rest)
  | .text => andThen Layout.readText fun s rest => .ok (.string s, rest)
  | .bytes => andThen readDelimited fun content rest => .ok (.bytes content, rest)

/-- Reading a value of a coding is local. -/
theorem Coding.local_read (coding : Coding) : Local coding.read := by
  cases coding with
  | varint toValue => exact local_readVarint.andThen fun n => local_pure (toValue n)
  | fixed32 toValue => exact local_readFixed32.andThen fun n => local_pure (toValue n)
  | fixed64 toValue => exact local_readFixed64.andThen fun n => local_pure (toValue n)
  | text => exact local_readText.andThen fun s => local_pure (Value.string s)
  | bytes => exact local_readDelimited.andThen fun content => local_pure (Value.bytes content)

/-- A kind is coded by values of its wire type. -/
theorem Descriptor.Scalar.wireType_coding (s : Scalar) : s.coding.wireType = s.wireType := by
  cases s <;> rfl

/-- Values that are delimited themselves do not share one value. -/
theorem Descriptor.Kind.not_delimited_and_isPackable (kind : Kind) :
    ¬(kind.wireType = .lengthDelimited ∧ kind.isPackable = true) := by
  cases kind with
  | scalar s => cases s <;> decide
  | message index =>
    rintro ⟨-, hpackable⟩
    cases hpackable
  | enum index =>
    rintro ⟨hdelimited, -⟩
    cases hdelimited

/-- The list that was assigned to a field. -/
theorem Column.listOf_assign (t : MessageType) (f : Field) (values : List Value) (m : Message) :
    listOf (m.assign t f (.list values)) f = values := by
  rw [listOf, Message.get_assign_self]
  rfl

/-- The map that was assigned to a field. -/
theorem Column.mapOf_assign (t : MessageType) (f : Field) (entries : List (MapKey × Value))
    (m : Message) : mapOf (m.assign t f (.map entries)) f = entries := by
  rw [mapOf, Message.get_assign_self]
  rfl

namespace Message

/-- Reads after checking a wire type. -/
def expecting {α : Type} (expected actual : WireType) (read : Reader α) : Reader α := fun input =>
  match expect expected actual with
  | .error f => .error f
  | .ok () => read input

/-- A value of the wire type that is expected is read. -/
theorem expecting_self {α : Type} (w : WireType) (read : Reader α) : expecting w w read = read := by
  funext input
  rw [expecting, expect, if_pos rfl]

/-- A value is read if its wire type is the expected one. -/
theorem expecting_eq_ok {α : Type} {expected actual : WireType} {read : Reader α}
    {input : List UInt8} {r : α × List UInt8} :
    expecting expected actual read input = .ok r ↔ actual = expected ∧ read input = .ok r := by
  unfold expecting expect
  by_cases h : actual = expected <;> simp [h]

/-- Reading after checking a wire type is local. -/
theorem local_expecting {α : Type} (expected actual : WireType) {read : Reader α}
    (h : Local read) : Local (expecting expected actual read) := by
  unfold expecting
  cases expect expected actual with
  | error f => exact local_error f
  | ok _ => exact h

/-- Readers that agree do so after checking a wire type. -/
theorem agree_expecting {σ τ : Type} {R : σ → τ → Prop} (expected actual : WireType)
    {read : Reader σ} {read' : Reader τ} {input : List UInt8}
    (h : Agree R (read input) (read' input)) :
    Agree R (expecting expected actual read input) (expecting expected actual read' input) := by
  unfold expecting
  cases expect expected actual with
  | error f => exact .error f f
  | ok _ => exact h

/-- A coded value is one of the wire type of its coding. -/
theorem readCoded_eq_expecting (coding : Coding) (w : WireType) :
    readCoded coding w = expecting coding.wireType w coding.read := by
  funext input
  cases coding with
  | varint toValue =>
    simp only [readCoded, expecting, Coding.wireType, Coding.read, andThen]
    cases expect .varint w <;> cases readVarint input <;> rfl
  | fixed32 toValue =>
    simp only [readCoded, expecting, Coding.wireType, Coding.read, andThen]
    cases expect .fixed32 w <;> cases readFixed32 input <;> rfl
  | fixed64 toValue =>
    simp only [readCoded, expecting, Coding.wireType, Coding.read, andThen]
    cases expect .fixed64 w <;> cases readFixed64 input <;> rfl
  | text =>
    simp only [readCoded, expecting, Coding.wireType, Coding.read, andThen]
    cases expect .lengthDelimited w <;> cases Layout.readText input <;> rfl
  | bytes =>
    simp only [readCoded, expecting, Coding.wireType, Coding.read, andThen]
    cases expect .lengthDelimited w <;> cases readDelimited input <;> rfl

/-- A key and what a step does with it. -/
theorem keyed_eq_andThen {σ : Type} (step : σ → Nat → WireType → Reader σ) (s : σ) :
    keyed step s = andThen readKey fun key rest => step s key.1 key.2 rest := by
  funext input
  unfold keyed andThen
  cases readKey input <;> rfl

/-- Reading a key and going on locally is local. -/
theorem local_keyed {σ : Type} {step : σ → Nat → WireType → Reader σ}
    (h : ∀ s n w, Local (step s n w)) (s : σ) : Local (keyed step s) := by
  rw [keyed_eq_andThen]
  exact local_readKey.andThen fun key => h s key.1 key.2

/-- Reading a key and going on locally consumes. -/
theorem consumes_keyed {σ : Type} {step : σ → Nat → WireType → Reader σ}
    (h : ∀ s n w, Local (step s n w)) : Consumes (keyed step) := by
  intro s input s' rest hr
  unfold keyed at hr
  split at hr
  · cases hr
  · rename_i n w middle hk
    exact Nat.lt_of_le_of_lt ((h s n w).length_le hr) (readKey_length_lt hk)

/-- Reading a key and going on in agreement is in agreement. -/
theorem agree_keyed {σ τ : Type} {R : σ → τ → Prop} {step : σ → Nat → WireType → Reader σ}
    {step' : τ → Nat → WireType → Reader τ}
    (h : ∀ s t n w input, R s t → Agree R (step s n w input) (step' t n w input)) {s : σ} {t : τ}
    (hst : R s t) (input : List UInt8) :
    Agree R (keyed step s input) (keyed step' t input) := by
  rw [keyed_eq_andThen, keyed_eq_andThen]
  refine Agree.andThen (R := Eq) (.refl _) ?_
  rintro key _ rest rfl
  exact h s t key.1 key.2 rest hst

/-- Merges a nested message or group by a step for its fields. -/
def readInside (step : FieldReader) (f : Field) (index : Nat) (w : WireType) (m : Message) :
    Reader Message :=
  if f.isGroup then expecting .startGroup w (untilEndGroup f.number (step index) m)
  else expecting .lengthDelimited w (delimited (keyed (step index)) m)

/-- What a nested value is merged by, if anything may be nested. -/
theorem readNested_some (step : FieldReader) (f : Field) (index : Nat) (w : WireType)
    (m : Message) : readNested (some step) f index w m = readInside step f index w m := by
  funext input
  unfold readNested readInside expecting
  split
  · cases expect .startGroup w <;> rfl
  · cases expect .lengthDelimited w <;> rfl

/-- Nothing may be nested, so a nested value is of the wrong wire type or nested too deep. -/
theorem readNested_none (f : Field) (index : Nat) (w : WireType) (m : Message) :
    readNested none f index w m =
      expecting (if f.isGroup then .startGroup else .lengthDelimited) w fun _ =>
        .error .recursionLimit := by
  funext input
  unfold readNested expecting
  split
  · cases expect .startGroup w <;> rfl
  · cases expect .lengthDelimited w <;> rfl

section Compositions

variable {nested : Option FieldReader} {budget : Nat} {p : Pool} {t : MessageType} {f : Field}
  {w : WireType} {m : Message}

/-- A single plain value is a coded one. -/
theorem readSingle_of_scalar {s : Scalar} (h : f.kind = .scalar s) (old : Value) :
    readSingle nested f w old = expecting s.coding.wireType w s.coding.read := by
  rw [← readCoded_eq_expecting]
  funext input
  rw [readSingle, h]

/-- A single enum value is a coded one. -/
theorem readSingle_of_enum {index : Nat} (h : f.kind = .enum index) (old : Value) :
    readSingle nested f w old = expecting enumCoding.wireType w enumCoding.read := by
  rw [← readCoded_eq_expecting]
  funext input
  rw [readSingle, h]

/-- A single message is merged into the one that is there. -/
theorem readSingle_of_message {index : Nat} (h : f.kind = .message index) (old : Value) :
    readSingle nested f w old =
      andThen (readNested nested f index w (ofValue old)) fun m rest => .ok (.message m, rest) := by
  funext input
  simp only [readSingle, h, andThen]
  cases readNested nested f index w (ofValue old) input <;> rfl

/-- An element is a single value that is merged into nothing and appended. -/
theorem readElement_eq_andThen (values : List Value) :
    readElement nested f w values =
      andThen (readSingle nested f w (.message .empty)) fun v rest =>
        .ok (values ++ [v], rest) := by
  funext input
  unfold readElement andThen
  cases readSingle nested f w (.message .empty) input <;> rfl

variable {merge merge' : ValueReader}

/-- A single value is merged by itself. -/
theorem readValueWith_of_single (h : f.arity = .single) (old : Value) :
    readValueWith p nested budget merge f w old = readSingle nested f w old := by
  funext input
  simp only [readValueWith, h]

/-- A list gains the elements read. -/
theorem readValueWith_of_list (h : f.arity = .list) (old : Value) :
    readValueWith p nested budget merge f w old =
      andThen (readElements nested f w old.elements) fun values rest => .ok (.list values, rest) := by
  funext input
  simp only [readValueWith, h, andThen]
  cases readElements nested f w old.elements input <;> rfl

/-- A map gains the entry read. -/
theorem readValueWith_of_map {entry : Nat} (h : f.arity = .map entry) (old : Value) :
    readValueWith p nested budget merge f w old =
      andThen (readMapEntry p nested budget merge (p.message entry)) fun e rest =>
        .ok (.map (MapKey.insert e.1 e.2 old.entries), rest) := by
  funext input
  simp only [readValueWith, h, andThen]
  cases readMapEntry p nested budget merge (p.message entry) input <;> rfl

/-- A field that the type has is assigned what its value is merged to. -/
theorem readKnown_eq_andThen :
    readKnown p nested budget t f m w =
      andThen (readValue p nested budget f w (m.get f)) fun v rest => .ok (m.assign t f v, rest) := by
  funext input
  simp only [readKnown, andThen]
  cases readValue p nested budget f w (m.get f) input <;> rfl

/-- A field that the type has is merged as such. -/
theorem readFieldWith_of_some {index number : Nat} (h : (p.message index).find? number = some f) :
    readFieldWith p nested budget index m number w =
      readKnown p nested budget (p.message index) f m w := by
  funext input
  simp only [readFieldWith, h]

/-- A field that the type does not have is kept. -/
theorem readFieldWith_of_none {index number : Nat} (h : (p.message index).find? number = none) :
    readFieldWith p nested budget index m number w =
      andThen (WireValue.read budget number w) fun v rest => .ok (m.addUnknown number v, rest) := by
  funext input
  simp only [readFieldWith, h, andThen]
  cases WireValue.read budget number w input <;> rfl

/-- Reads the key of an entry. -/
def readEntryKey (nested : Option FieldReader) (keyField : Field) (entry : MapKey × Value)
    (w : WireType) : Reader (MapKey × Value) :=
  andThen (readSingle nested keyField w entry.1.toValue) fun v rest =>
    match MapKey.ofValue? v with
    | none => .error .invalidMapKey
    | some key => .ok ((key, entry.2), rest)

variable {keyField valueField : Field} {number : Nat} (entry : MapKey × Value)

/-- A field of an entry is its key. -/
theorem readEntryField_of_key (h : number = keyField.number) :
    readEntryField nested budget merge keyField valueField entry number w =
      readEntryKey nested keyField entry w := by
  funext input
  simp only [readEntryField, readEntryKey, if_pos h, andThen]
  cases readSingle nested keyField w entry.1.toValue input <;> rfl

/-- A field of an entry is its value. -/
theorem readEntryField_of_value (hkey : number ≠ keyField.number)
    (h : number = valueField.number) :
    readEntryField nested budget merge keyField valueField entry number w =
      andThen (merge valueField w entry.2) fun v rest => .ok ((entry.1, v), rest) := by
  funext input
  simp only [readEntryField, if_neg hkey, if_pos h, andThen]
  cases merge valueField w entry.2 input <;> rfl

/-- A field of an entry is neither and skipped. -/
theorem readEntryField_of_other (hkey : number ≠ keyField.number)
    (hvalue : number ≠ valueField.number) :
    readEntryField nested budget merge keyField valueField entry number w =
      andThen (skip budget number w) fun _ rest => .ok (entry, rest) := by
  funext input
  simp only [readEntryField, if_neg hkey, if_neg hvalue, andThen]
  cases skip budget number w input <;> rfl

end Compositions

/-! ## Maps in the entries of maps -/

section Levels

variable {p : Pool} {nested : Option FieldReader} {budget : Nat}

/-- An entry is read the same if the values in it are, which are shorter. -/
theorem readMapEntry_congr {merge merge' : ValueReader} {input : List UInt8}
    (h : ∀ f w old i, i.length < input.length → merge f w old i = merge' f w old i)
    (entry : MessageType) :
    readMapEntry p nested budget merge entry input =
      readMapEntry p nested budget merge' entry input := by
  have hkeyed : ∀ keyField valueField e i, i.length < input.length →
      keyed (readEntryField nested budget merge keyField valueField) e i =
        keyed (readEntryField nested budget merge' keyField valueField) e i := by
    intro keyField valueField e i hi
    unfold keyed
    cases hk : readKey i with
    | error f => rfl
    | ok r =>
      have hlt := readKey_length_lt hk
      simp only [readEntryField, h valueField _ e.2 r.2 (Nat.lt_trans hlt hi)]
  unfold readMapEntry
  split
  · split
    · rfl
    · exact delimited_congr (hkeyed _ _) _
  · rfl

/-- A value is merged the same if the values in its entries are, which are shorter. -/
theorem readValueWith_congr {merge merge' : ValueReader} {input : List UInt8}
    (h : ∀ f w old i, i.length < input.length → merge f w old i = merge' f w old i)
    (f : Field) (w : WireType) (old : Value) :
    readValueWith p nested budget merge f w old input =
      readValueWith p nested budget merge' f w old input := by
  unfold readValueWith
  split
  · rfl
  · rfl
  · rw [readMapEntry_congr h]

/-- As many levels as there are bytes are enough, and further ones change nothing. -/
theorem readValueTo_congr {levels levels' : Nat} {input : List UInt8} (h : input.length ≤ levels)
    (h' : input.length ≤ levels') (f : Field) (w : WireType) (old : Value) :
    readValueTo p nested budget levels f w old input =
      readValueTo p nested budget levels' f w old input := by
  induction levels generalizing levels' f w old input with
  | zero =>
    cases levels' with
    | zero => rfl
    | succ levels' => exact readValueWith_congr (fun _ _ _ i hi => absurd hi (by omega)) f w old
  | succ levels ih =>
    cases levels' with
    | zero => exact readValueWith_congr (fun _ _ _ i hi => absurd hi (by omega)) f w old
    | succ levels' =>
      refine readValueWith_congr (fun f w old i hi => ?_) f w old
      exact ih (by omega) (by omega) f w old

/-- The values of entries are merged as all values are. -/
theorem readValue_eq :
    readValue p nested budget = readValueWith p nested budget (readValue p nested budget) := by
  funext f w old input
  have hmore : readValue p nested budget f w old input =
      readValueTo p nested budget (input.length + 1) f w old input :=
    readValueTo_congr (Nat.le_refl _) (Nat.le_succ _) f w old
  refine hmore.trans (readValueWith_congr (fun f w old i hi => ?_) f w old)
  exact readValueTo_congr (by omega) (Nat.le_refl _) f w old

variable {t : MessageType} {f : Field} {w : WireType} {m : Message}

/-- A single field is assigned what its value is merged to. -/
theorem readKnown_of_single (h : f.arity = .single) :
    readKnown p nested budget t f m w =
      andThen (readSingle nested f w (m.get f)) fun v rest => .ok (m.assign t f v, rest) := by
  rw [readKnown_eq_andThen, readValue_eq, readValueWith_of_single h]

/-- A list is assigned what it was with the elements read. -/
theorem readKnown_of_list (h : f.arity = .list) :
    readKnown p nested budget t f m w =
      andThen (readElements nested f w (Column.listOf m f)) fun values rest =>
        .ok (m.assign t f (.list values), rest) := by
  rw [readKnown_eq_andThen, readValue_eq, readValueWith_of_list h, Column.listOf]
  funext input
  unfold andThen
  cases readElements nested f w (m.get f).elements input <;> rfl

/-- A map is assigned what it was with the entry read put in. -/
theorem readKnown_of_map {entry : Nat} (h : f.arity = .map entry) :
    readKnown p nested budget t f m w =
      andThen (readMapEntry p nested budget (readValue p nested budget) (p.message entry))
        fun e rest =>
          .ok (m.assign t f (.map (MapKey.insert e.1 e.2 (Column.mapOf m f))), rest) := by
  rw [readKnown_eq_andThen, readValue_eq, readValueWith_of_map h, Column.mapOf, ← readValue_eq]
  funext input
  unfold andThen
  cases readMapEntry p nested budget (readValue p nested budget) (p.message entry) input <;> rfl

end Levels

/-- The reader of fields inside a nested value, if there is one, is local. -/
def NestedLocal (nested : Option FieldReader) : Prop :=
  ∀ step, nested = some step → ∀ index m n w, Local (step index m n w)

/-- The reader of fields inside a nested value agrees with another, if there is one. -/
def NestedAgree (nested nested' : Option FieldReader) : Prop :=
  ∀ step, nested = some step → ∃ step', nested' = some step' ∧
    ∀ index m n w input, Agree Eq (step index m n w input) (step' index m n w input)

/-- If nothing may be nested, nothing that is nested is not read locally. -/
theorem nestedLocal_none : NestedLocal none := by
  intro step h
  cases h

section Local

variable {nested : Option FieldReader} (h : NestedLocal nested)
include h

/-- Merging a nested value is local. -/
theorem local_readNested (f : Field) (index : Nat) (w : WireType) (m : Message) :
    Local (readNested nested f index w m) := by
  cases nested with
  | none =>
    rw [readNested_none]
    exact local_expecting _ _ (local_error _)
  | some step =>
    rw [readNested_some, readInside]
    have hstep := h step rfl
    split
    · exact local_expecting _ _ (local_untilEndGroup (hstep index) _ _)
    · exact local_expecting _ _ (local_delimited (local_keyed (hstep index)) _)

/-- Merging a single value is local. -/
theorem local_readSingle (f : Field) (w : WireType) (old : Value) :
    Local (readSingle nested f w old) := by
  cases hkind : f.kind with
  | scalar s =>
    rw [readSingle_of_scalar hkind]
    exact local_expecting _ _ (Coding.local_read _)
  | enum index =>
    rw [readSingle_of_enum hkind]
    exact local_expecting _ _ (Coding.local_read _)
  | message index =>
    rw [readSingle_of_message hkind]
    exact (local_readNested h f index w _).andThen fun m => local_pure (Value.message m)

/-- Reading an element is local. -/
theorem local_readElement (f : Field) (w : WireType) (values : List Value) :
    Local (readElement nested f w values) := by
  rw [readElement_eq_andThen]
  exact (local_readSingle h f w _).andThen fun v => local_pure (values ++ [v])

/-- Reading the elements of a value is local. -/
theorem local_readElements (f : Field) (w : WireType) (values : List Value) :
    Local (readElements nested f w values) := by
  unfold readElements
  split
  · exact local_delimited (local_readElement h f _) _
  · exact local_readElement h f w _

section Entries

variable {merge : ValueReader} (hmerge : ∀ f w old, Local (merge f w old))
include hmerge

/-- Adding a field to a map's entry is local. -/
theorem local_readEntryField (budget : Nat) (keyField valueField : Field)
    (entry : MapKey × Value) (number : Nat) (w : WireType) :
    Local (readEntryField nested budget merge keyField valueField entry number w) := by
  by_cases hkey : number = keyField.number
  · rw [readEntryField_of_key entry hkey]
    refine (local_readSingle h keyField w _).andThen fun v => ?_
    split
    · exact local_error _
    · exact local_pure _
  · by_cases hvalue : number = valueField.number
    · rw [readEntryField_of_value entry hkey hvalue]
      exact (hmerge valueField w _).andThen fun v => local_pure (entry.1, v)
    · rw [readEntryField_of_other entry hkey hvalue]
      exact (local_skip budget number w).andThen fun _ => local_pure entry

/-- Reading a map's entry is local. -/
theorem local_readMapEntry (p : Pool) (budget : Nat) (entry : MessageType) :
    Local (readMapEntry p nested budget merge entry) := by
  unfold readMapEntry
  split
  · split
    · exact local_error _
    · exact local_delimited (local_keyed (local_readEntryField h hmerge budget _ _)) _
  · exact local_error _

/-- Merging a value is local if merging the values of entries is. -/
theorem local_readValueWith (p : Pool) (budget : Nat) (f : Field) (w : WireType) (old : Value) :
    Local (readValueWith p nested budget merge f w old) := by
  cases harity : f.arity with
  | single =>
    rw [readValueWith_of_single harity]
    exact local_readSingle h f w old
  | list =>
    rw [readValueWith_of_list harity]
    exact (local_readElements h f w _).andThen fun values => local_pure (Value.list values)
  | map entry =>
    rw [readValueWith_of_map harity]
    exact (local_readMapEntry h hmerge p budget _).andThen fun e => local_pure _

end Entries

/-- Merging a value is local. -/
theorem local_readValue (p : Pool) (budget : Nat) (f : Field) (w : WireType) (old : Value) :
    Local (readValue p nested budget f w old) := by
  have hlevels : ∀ levels f w old, Local (readValueTo p nested budget levels f w old) := by
    intro levels
    induction levels with
    | zero => exact local_readValueWith h (fun _ _ _ => local_error _) p budget
    | succ levels ih => exact local_readValueWith h ih p budget
  exact Local.of_length (fun levels => hlevels levels f w old)
    fun levels input hle => readValueTo_congr hle (Nat.le_refl _) f w old

/-- Merging a field of the type is local. -/
theorem local_readKnown (p : Pool) (budget : Nat) (t : MessageType) (f : Field) (m : Message)
    (w : WireType) : Local (readKnown p nested budget t f m w) := by
  rw [readKnown_eq_andThen]
  exact (local_readValue h p budget f w _).andThen fun v => local_pure (m.assign t f v)

/-- Merging a field is local if what merges the fields inside is. -/
theorem local_readFieldWith (p : Pool) (budget index : Nat) (m : Message) (number : Nat)
    (w : WireType) : Local (readFieldWith p nested budget index m number w) := by
  cases hf : (p.message index).find? number with
  | some f =>
    rw [readFieldWith_of_some hf]
    exact local_readKnown h p budget _ f m w
  | none =>
    rw [readFieldWith_of_none hf]
    exact (WireValue.local_read budget number w).andThen fun v =>
      local_pure (m.addUnknown number v)

end Local

/-- Merging a field is local. -/
theorem local_readField (p : Pool) (budget index : Nat) (m : Message) (number : Nat)
    (w : WireType) : Local (readField p budget index m number w) := by
  induction budget generalizing index m number w with
  | zero => exact local_readFieldWith nestedLocal_none p 0 index m number w
  | succ budget ih =>
    refine local_readFieldWith (fun step h => ?_) p (budget + 1) index m number w
    obtain rfl := Option.some.inj h
    exact ih

/-- The readers of nested fields are local. -/
theorem nestedLocal_readField (p : Pool) (budget : Nat) :
    NestedLocal (some (readField p budget)) := by
  intro step h
  obtain rfl := Option.some.inj h
  exact local_readField p budget

section Agree

variable {nested nested' : Option FieldReader} (hlocal : NestedLocal nested)
  (hlocal' : NestedLocal nested') (h : NestedAgree nested nested')
include hlocal hlocal' h

/-- Merging a nested value agrees with doing so by other steps that agree. -/
theorem agree_readNested (f : Field) (index : Nat) (w : WireType) (m : Message)
    (input : List UInt8) :
    Agree Eq (readNested nested f index w m input) (readNested nested' f index w m input) := by
  cases nested with
  | none =>
    -- The first gives up at the first nested value, unless its wire type is wrong on both sides.
    rw [readNested_none]
    cases nested' with
    | none =>
      rw [readNested_none]
      exact .refl _
    | some step' =>
      rw [readNested_some, readInside]
      split
      · exact agree_expecting _ _ (.limit _)
      · exact agree_expecting _ _ (.limit _)
  | some step =>
    obtain ⟨step', rfl, hstep⟩ := h step rfl
    rw [readNested_some, readNested_some, readInside, readInside]
    split
    · refine agree_expecting _ _ ?_
      refine Agree.untilEndGroup (hlocal step rfl index) (hlocal' step' rfl index) ?_ f.number rfl
        input
      rintro m _ n w input rfl
      exact hstep index m n w input
    · refine agree_expecting _ _ ?_
      refine Agree.delimited (R := Eq) (fun m m' input hm => agree_keyed ?_ hm input) rfl input
      rintro m _ n w input rfl
      exact hstep index m n w input

/-- Merging a single value agrees. -/
theorem agree_readSingle (f : Field) (w : WireType) (old : Value) (input : List UInt8) :
    Agree Eq (readSingle nested f w old input) (readSingle nested' f w old input) := by
  cases hkind : f.kind with
  | scalar s =>
    rw [readSingle_of_scalar hkind, readSingle_of_scalar hkind]
    exact .refl _
  | enum index =>
    rw [readSingle_of_enum hkind, readSingle_of_enum hkind]
    exact .refl _
  | message index =>
    rw [readSingle_of_message hkind, readSingle_of_message hkind]
    exact (agree_readNested hlocal hlocal' h f index w _ input).andThen_same

/-- Reading an element agrees. -/
theorem agree_readElement (f : Field) (w : WireType) (values : List Value) (input : List UInt8) :
    Agree Eq (readElement nested f w values input) (readElement nested' f w values input) := by
  rw [readElement_eq_andThen, readElement_eq_andThen]
  exact (agree_readSingle hlocal hlocal' h f w _ input).andThen_same

/-- Reading the elements of a value agrees. -/
theorem agree_readElements (f : Field) (w : WireType) (values : List Value) (input : List UInt8) :
    Agree Eq (readElements nested f w values input) (readElements nested' f w values input) := by
  unfold readElements
  split
  · refine Agree.delimited (R := Eq) ?_ rfl input
    rintro values _ input rfl
    exact agree_readElement hlocal hlocal' h f _ values input
  · exact agree_readElement hlocal hlocal' h f w _ input

section Entries

variable {merge merge' : ValueReader}
  (hmerge : ∀ f w old input, Agree Eq (merge f w old input) (merge' f w old input))
include hmerge

/-- Adding a field to a map's entry agrees. -/
theorem agree_readEntryField (budget : Nat) (keyField valueField : Field)
    (entry : MapKey × Value) (number : Nat) (w : WireType) (input : List UInt8) :
    Agree Eq (readEntryField nested budget merge keyField valueField entry number w input)
      (readEntryField nested' (budget + 1) merge' keyField valueField entry number w input) := by
  by_cases hkey : number = keyField.number
  · rw [readEntryField_of_key entry hkey, readEntryField_of_key entry hkey]
    exact (agree_readSingle hlocal hlocal' h keyField w _ input).andThen_same
  · by_cases hvalue : number = valueField.number
    · rw [readEntryField_of_value entry hkey hvalue, readEntryField_of_value entry hkey hvalue]
      exact (hmerge valueField w _ input).andThen_same
    · rw [readEntryField_of_other entry hkey hvalue, readEntryField_of_other entry hkey hvalue]
      exact (skip_agree budget number w input).andThen_same

/-- Reading a map's entry agrees. -/
theorem agree_readMapEntry (p : Pool) (budget : Nat) (entry : MessageType) (input : List UInt8) :
    Agree Eq (readMapEntry p nested budget merge entry input)
      (readMapEntry p nested' (budget + 1) merge' entry input) := by
  unfold readMapEntry
  split
  · split
    · exact .refl _
    · refine Agree.delimited (R := Eq) (fun e e' input he => agree_keyed ?_ he input) rfl input
      rintro e _ n w input rfl
      exact agree_readEntryField hlocal hlocal' h hmerge budget _ _ e n w input
  · exact .refl _

/-- Merging a value agrees if merging the values of entries does. -/
theorem agree_readValueWith (p : Pool) (budget : Nat) (f : Field) (w : WireType) (old : Value)
    (input : List UInt8) :
    Agree Eq (readValueWith p nested budget merge f w old input)
      (readValueWith p nested' (budget + 1) merge' f w old input) := by
  cases harity : f.arity with
  | single =>
    rw [readValueWith_of_single harity, readValueWith_of_single harity]
    exact agree_readSingle hlocal hlocal' h f w old input
  | list =>
    rw [readValueWith_of_list harity, readValueWith_of_list harity]
    exact (agree_readElements hlocal hlocal' h f w _ input).andThen_same
  | map entry =>
    rw [readValueWith_of_map harity, readValueWith_of_map harity]
    exact (agree_readMapEntry hlocal hlocal' h hmerge p budget _ input).andThen_same

end Entries

/-- Merging a value agrees. -/
theorem agree_readValue (p : Pool) (budget : Nat) (f : Field) (w : WireType) (old : Value)
    (input : List UInt8) :
    Agree Eq (readValue p nested budget f w old input)
      (readValue p nested' (budget + 1) f w old input) := by
  have hlevels : ∀ levels f w old input,
      Agree Eq (readValueTo p nested budget levels f w old input)
        (readValueTo p nested' (budget + 1) levels f w old input) := by
    intro levels
    induction levels with
    | zero => exact agree_readValueWith hlocal hlocal' h (fun _ _ _ _ => .refl _) p budget
    | succ levels ih => exact agree_readValueWith hlocal hlocal' h ih p budget
  exact hlevels input.length f w old input

/-- Merging a field of the type agrees. -/
theorem agree_readKnown (p : Pool) (budget : Nat) (t : MessageType) (f : Field) (m : Message)
    (w : WireType) (input : List UInt8) :
    Agree Eq (readKnown p nested budget t f m w input)
      (readKnown p nested' (budget + 1) t f m w input) := by
  rw [readKnown_eq_andThen, readKnown_eq_andThen]
  exact (agree_readValue hlocal hlocal' h p budget f w _ input).andThen_same

/-- Merging a field agrees with doing so under a limit higher by one if what merges the fields
inside agrees. -/
theorem agree_readFieldWith (p : Pool) (budget index : Nat) (m : Message) (number : Nat)
    (w : WireType) (input : List UInt8) :
    Agree Eq (readFieldWith p nested budget index m number w input)
      (readFieldWith p nested' (budget + 1) index m number w input) := by
  cases hf : (p.message index).find? number with
  | some f =>
    rw [readFieldWith_of_some hf, readFieldWith_of_some hf]
    exact agree_readKnown hlocal hlocal' h p budget _ f m w input
  | none =>
    rw [readFieldWith_of_none hf, readFieldWith_of_none hf]
    exact (WireValue.read_agree budget number w input).andThen_same

end Agree

/-- Merging a field agrees with merging it under a higher limit. -/
theorem readField_agree (p : Pool) (budget index : Nat) (m : Message) (number : Nat)
    (w : WireType) (input : List UInt8) :
    Agree Eq (readField p budget index m number w input)
      (readField p (budget + 1) index m number w input) := by
  induction budget generalizing index m number w input with
  | zero =>
    -- With nothing nested below there is nothing that would have to agree.
    have hnone : NestedAgree none (some (readField p 0)) := by
      intro step h
      cases h
    exact agree_readFieldWith nestedLocal_none (nestedLocal_readField p 0) hnone p 0 index m
      number w input
  | succ budget ih =>
    have hnested : NestedAgree (some (readField p budget)) (some (readField p (budget + 1))) := by
      intro step h
      obtain rfl := Option.some.inj h
      exact ⟨_, rfl, ih⟩
    exact agree_readFieldWith (nestedLocal_readField p budget)
      (nestedLocal_readField p (budget + 1)) hnested p (budget + 1) index m number w input

/-- Merges the fields of an encoded message one after another. -/
def mergeFields (p : Pool) (index : Nat) (m : Message) : Reader Message :=
  whileLonger 0 (keyed (readField p nestingLimit index)) m

/-- Merging is merging the fields. -/
theorem merge_eq_map (p : Pool) (index : Nat) (m : Message) (bytes : List UInt8) :
    merge p index m bytes = (mergeFields p index m bytes).map Prod.fst := rfl

/-- No field leaves the message as it is. -/
theorem mergeFields_nil (p : Pool) (index : Nat) (m : Message) :
    mergeFields p index m [] = .ok (m, []) := by
  rw [mergeFields, whileLonger]
  rfl

/-- A field is merged first, and those that follow it after it. -/
theorem mergeFields_of_ne_nil (p : Pool) (index : Nat) (m : Message) {bytes : List UInt8}
    (h : bytes ≠ []) :
    mergeFields p index m bytes =
      andThen (keyed (readField p nestingLimit index) m) (mergeFields p index) bytes := by
  have hpos := List.length_pos_iff.2 h
  rw [mergeFields, whileLonger_eq (consumes_keyed (local_readField p nestingLimit index)),
    if_neg (by omega), andThen]
  cases keyed (readField p nestingLimit index) m bytes <;> rfl

/-- All bytes are merged. -/
theorem rest_eq_nil_of_mergeFields {p : Pool} {index : Nat} {m m' : Message}
    {bytes rest : List UInt8} (h : mergeFields p index m bytes = .ok (m', rest)) : rest = [] := by
  have hle := length_le_of_whileLonger (consumes_keyed (local_readField p nestingLimit index)) h
  exact List.eq_nil_of_length_eq_zero (by omega)

/-- If one field is merged in agreement with something and the following ones are in agreement with
what comes after it, then all of them are. -/
theorem agree_mergeFields {τ ε ε' : Type} {R : Message → τ → Prop} {p : Pool} {index : Nat}
    {m : Message} {bytes rest : List UInt8} (hne : bytes ≠ []) {y : Except ε Message}
    (h : Agree Eq (keyed (readField p nestingLimit index) m bytes) (y.map fun m => (m, rest)))
    (g : ε → ε') {k : Message → Except ε' (τ × List UInt8)}
    (hk : ∀ m', y = .ok m' → Agree R (mergeFields p index m' rest) (k m')) :
    Agree R (mergeFields p index m bytes) ((y.mapError g).bind k) := by
  rw [mergeFields_of_ne_nil p index m hne, andThen]
  -- What is merged first decides whether there is anything after it, on both sides.
  generalize keyed (readField p nestingLimit index) m bytes = x at h
  cases y with
  | error e =>
    cases h with
    | limit _ => exact .limit _
    | error f _ => exact .error f _
  | ok m' =>
    cases h with
    | limit _ => exact .limit _
    | ok _ hm => exact hm ▸ hk m' rfl

end Message

end ColumnarRecords

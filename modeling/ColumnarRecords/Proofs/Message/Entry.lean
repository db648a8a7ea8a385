import ColumnarRecords.Proofs.Message.Assign
import ColumnarRecords.Proofs.Message.Merge

/-!
# Entries of maps are messages

An entry of a map is written as a message of two fields, and read in two ways: as a key and a value
when a field is merged (`Message.readMapEntry`), or as a message of its type whose fields are then
taken (`Column.readEntry`). The two agree if there is nothing in the type that one of them sees and
the other does not, which `MessageType.IsEntry` says. The language of schemas makes no other types for
maps, but nothing checks this when a descriptor set is loaded.

The proof is a simulation: `Message.Holds` relates a key and a value to the message that has been
read so far, every field keeps the relation (`Message.agree_entry_step`), and so do all fields of an
entry (`Message.agree_entry`).
-/

namespace ColumnarRecords

open Descriptor Wire

/-- Entries of the type are the same whether their fields are merged or taken from a message: there
is no field but the key and the value, the key is single and has the default of its kind, and the two
share no oneof. The value may be a list or a map. -/
structure Descriptor.MessageType.IsEntry (p : Pool) (t : MessageType) : Prop where
  /-- There are a key and a value only. -/
  only : ∀ n f, t.find? n = some f → n = 1 ∨ n = 2
  /-- A key is single, and zero or empty if it is not there. -/
  key : ∀ f, t.fields.find? 1 = some f → f.arity = .single ∧ f.defaultValue = p.zero f.kind
  /-- A value does not clear the key, nor a key the value. -/
  oneof : ∀ f, t.fields.find? 2 = some f → 1 ∉ t.siblings f

/-- A field of a type is found before its extensions. -/
theorem Descriptor.MessageType.find?_of_fields {t : MessageType} {n : Nat} {f : Field}
    (h : t.fields.find? n = some f) : t.find? n = some f := by
  rw [MessageType.find?, h]
  rfl

/-- What is found by a number is a field or an extension of this number. -/
theorem Descriptor.MessageType.mem_of_find? {t : MessageType} {n : Nat} {f : Field}
    (h : t.find? n = some f) :
    (f ∈ t.fields.toList ∨ f ∈ t.extensions.toList) ∧ f.number = n := by
  rw [MessageType.find?] at h
  cases hfields : t.fields.find? n with
  | some g =>
    rw [hfields] at h
    obtain rfl := Option.some.inj h
    obtain ⟨hmem, hnumber⟩ := FieldTable.find?_eq_some_iff.1 hfields
    exact ⟨.inl hmem, hnumber⟩
  | none =>
    rw [hfields] at h
    obtain ⟨hmem, hnumber⟩ := FieldTable.find?_eq_some_iff.1 h
    exact ⟨.inr hmem, hnumber⟩

namespace Message

/-- The values of a kind are keys just if its zero is one. -/
theorem isSome_ofValue?_of_readSingle (p : Pool) {nested : Option FieldReader} {f : Field}
    {w : WireType} {old v : Value} {input rest : List UInt8}
    (h : readSingle nested f w old input = .ok (v, rest)) :
    (MapKey.ofValue? v).isSome = (MapKey.ofValue? (p.zero f.kind)).isSome := by
  cases hkind : f.kind with
  | scalar s =>
    rw [readSingle_of_scalar hkind] at h
    have hread := (expecting_eq_ok.1 h).2
    cases s <;>
      (obtain ⟨x, r, -, hx⟩ := andThen_eq_ok.1 hread
       obtain ⟨rfl, -⟩ := Prod.mk.inj (Except.ok.inj hx)
       rfl)
  | enum index =>
    rw [readSingle_of_enum hkind] at h
    obtain ⟨x, r, -, hx⟩ := andThen_eq_ok.1 (expecting_eq_ok.1 h).2
    obtain ⟨rfl, -⟩ := Prod.mk.inj (Except.ok.inj hx)
    rfl
  | message index =>
    rw [readSingle_of_message hkind] at h
    obtain ⟨m, r, -, hx⟩ := andThen_eq_ok.1 h
    obtain ⟨rfl, -⟩ := Prod.mk.inj (Except.ok.inj hx)
    rfl

/-- A field of a kind that keys can have is read the same whatever it held. -/
theorem readSingle_of_isKey (p : Pool) {nested : Option FieldReader} {f : Field} {w : WireType}
    (h : (MapKey.ofValue? (p.zero f.kind)).isSome) (old old' : Value) :
    readSingle nested f w old = readSingle nested f w old' := by
  cases hkind : f.kind with
  | scalar s => rw [readSingle_of_scalar hkind, readSingle_of_scalar hkind]
  | enum index => rw [readSingle_of_enum hkind, readSingle_of_enum hkind]
  | message index =>
    rw [hkind] at h
    exact absurd h Bool.false_ne_true

section Entry

variable {p : Pool} {index : Nat} {keyField valueField : Field}

/-- A message holds the key and the value of an entry. -/
def Holds (keyField valueField : Field) (entry : MapKey × Value) (m : Message) : Prop :=
  MapKey.ofValue? (m.get keyField) = some entry.1 ∧ m.get valueField = entry.2

variable (hentry : (p.message index).IsEntry p)
  (hkey : (p.message index).fields.find? 1 = some keyField)
  (hvalue : (p.message index).fields.find? 2 = some valueField)
include hentry hkey

/-- The empty message holds the zero of the key's kind as its key. -/
theorem get_empty_key : Message.empty.get keyField = p.zero keyField.kind := by
  obtain ⟨hsingle, hzero⟩ := hentry.key keyField hkey
  show keyField.unsetValue = p.zero keyField.kind
  rw [Field.unsetValue, hsingle]
  exact hzero

include hvalue

/-- A value leaves the key as it is. -/
theorem get_key_assign_value (v : Value) (m : Message) :
    (m.assign (p.message index) valueField v).get keyField = m.get keyField := by
  have hkeynumber : keyField.number = 1 := (FieldTable.find?_eq_some_iff.1 hkey).2
  have hvaluenumber : valueField.number = 2 := (FieldTable.find?_eq_some_iff.1 hvalue).2
  exact get_assign_of_ne (by omega) (hkeynumber ▸ hentry.oneof valueField hvalue) v m

/-- A key leaves the value as it is. -/
theorem get_value_assign_key (v : Value) (m : Message) :
    (m.assign (p.message index) keyField v).get valueField = m.get valueField := by
  have hkeynumber : keyField.number = 1 := (FieldTable.find?_eq_some_iff.1 hkey).2
  have hvaluenumber : valueField.number = 2 := (FieldTable.find?_eq_some_iff.1 hvalue).2
  refine get_assign_of_ne (by omega) (fun hcleared => ?_) v m
  -- Members of a oneof clear each other, so the value would clear the key.
  obtain ⟨⟨i, hi, hj⟩, hne⟩ := (MessageType.mem_siblings_iff (hvaluenumber ▸ hvalue)).1 hcleared
  have hback := (MessageType.mem_siblings_iff (hkeynumber ▸ hkey)).2 ⟨⟨i, hj, hi⟩, hne.symm⟩
  exact hentry.oneof valueField hvalue (hkeynumber ▸ hback)

section Step

variable {entry : MapKey × Value} {m : Message} (h : Holds keyField valueField entry m)
  (nested : Option FieldReader) (budget : Nat) (w : WireType) (input : List UInt8)
include h

/-- A key replaces that of the entry and that of the message. -/
theorem agree_key_step (hzero : (MapKey.ofValue? (p.zero keyField.kind)).isSome) :
    Agree (Holds keyField valueField)
      (readEntryField nested budget (readValue p nested budget) keyField valueField entry 1 w input)
      (readFieldWith p nested budget index m 1 w input) := by
  have hkeynumber : keyField.number = 1 := (FieldTable.find?_eq_some_iff.1 hkey).2
  obtain ⟨hsingle, -⟩ := hentry.key keyField hkey
  rw [readEntryField_of_key entry hkeynumber.symm,
    readFieldWith_of_some (MessageType.find?_of_fields hkey), readKnown_of_single hsingle,
    readEntryKey, readSingle_of_isKey p hzero entry.1.toValue (m.get keyField)]
  unfold andThen
  cases hread : readSingle nested keyField w (m.get keyField) input with
  | error f => exact .error f f
  | ok r =>
    obtain ⟨v, rest⟩ := r
    -- The value is a key, as the zero of its kind is.
    have hsome := isSome_ofValue?_of_readSingle p hread
    rw [hzero] at hsome
    obtain ⟨key, hk⟩ := Option.isSome_iff_exists.1 hsome
    simp only [hk]
    refine .ok rest ⟨?_, ?_⟩
    · rw [get_assign_self, hk]
    · rw [get_value_assign_key hentry hkey hvalue, h.2]

/-- A value is merged into that of the entry and into that of the message, which is the same. -/
theorem agree_value_step :
    Agree (Holds keyField valueField)
      (readEntryField nested budget (readValue p nested budget) keyField valueField entry 2 w input)
      (readFieldWith p nested budget index m 2 w input) := by
  have hkeynumber : keyField.number = 1 := (FieldTable.find?_eq_some_iff.1 hkey).2
  have hvaluenumber : valueField.number = 2 := (FieldTable.find?_eq_some_iff.1 hvalue).2
  rw [readEntryField_of_value entry (by omega) hvaluenumber.symm,
    readFieldWith_of_some (MessageType.find?_of_fields hvalue), readKnown_eq_andThen, ← h.2]
  refine Agree.andThen (R := Eq) (.refl _) ?_
  rintro v _ rest rfl
  refine .ok rest ⟨?_, ?_⟩
  · rw [get_key_assign_value hentry hkey hvalue, h.1]
  · rw [get_assign_self]

/-- Any other field is skipped in the entry and kept in the message as one it does not know. -/
theorem agree_other_step {number : Nat} (h1 : number ≠ 1) (h2 : number ≠ 2) :
    Agree (Holds keyField valueField)
      (readEntryField nested budget (readValue p nested budget) keyField valueField entry number w
        input)
      (readFieldWith p nested budget index m number w input) := by
  have hkeynumber : keyField.number = 1 := (FieldTable.find?_eq_some_iff.1 hkey).2
  have hvaluenumber : valueField.number = 2 := (FieldTable.find?_eq_some_iff.1 hvalue).2
  have hnone : (p.message index).find? number = none := by
    cases hfind : (p.message index).find? number with
    | none => rfl
    | some f => rcases hentry.only number f hfind with h | h <;> contradiction
  rw [readEntryField_of_other entry (by omega) (by omega), readFieldWith_of_none hnone]
  refine (skip_agree_read budget number w input).andThen fun _ v rest _ => ?_
  refine .ok rest ⟨?_, ?_⟩
  · rw [get_addUnknown _ _ _ (by omega), h.1]
  · rw [get_addUnknown _ _ _ (by omega), h.2]

/-- A field of an entry adds the same to its key and value as to the message that holds them. -/
theorem agree_entry_step (hzero : (MapKey.ofValue? (p.zero keyField.kind)).isSome)
    (number : Nat) :
    Agree (Holds keyField valueField)
      (readEntryField nested budget (readValue p nested budget) keyField valueField entry number w
        input)
      (readFieldWith p nested budget index m number w input) := by
  by_cases h1 : number = 1
  · subst h1
    exact agree_key_step hentry hkey hvalue h nested budget w input hzero
  by_cases h2 : number = 2
  · subst h2
    exact agree_value_step hentry hkey hvalue h nested budget w input
  · exact agree_other_step hentry hkey hvalue h nested budget w input h1 h2

end Step

/-- The content of an entry gives the same key and value as the message that it is. -/
theorem agree_entry_content (key : MapKey)
    (hzero : MapKey.ofValue? (p.zero keyField.kind) = some key) (nested : Option FieldReader)
    (budget : Nat) (input : List UInt8) :
    Agree (Holds keyField valueField)
      (delimited
        (keyed (readEntryField nested budget (readValue p nested budget) keyField valueField))
        (key, valueField.unsetValue) input)
      (delimited (keyed (readFieldWith p nested budget index)) .empty input) := by
  have hsome : (MapKey.ofValue? (p.zero keyField.kind)).isSome := by rw [hzero]; rfl
  refine Agree.delimited (fun e m input h => agree_keyed ?_ h input) ?_ input
  · intro e m n w input h
    exact agree_entry_step hentry hkey hvalue h nested budget w input hsome n
  · refine ⟨?_, rfl⟩
    rw [get_empty_key hentry hkey, hzero]

/-- What the key field holds stays no key, if its kind is none that keys can have. -/
theorem ofValue?_get_of_readFieldWith (hzero : MapKey.ofValue? (p.zero keyField.kind) = none)
    {nested : Option FieldReader} {budget number : Nat} {w : WireType} {m m' : Message}
    {input rest : List UInt8} (hm : MapKey.ofValue? (m.get keyField) = none)
    (h : readFieldWith p nested budget index m number w input = .ok (m', rest)) :
    MapKey.ofValue? (m'.get keyField) = none := by
  have hkeynumber : keyField.number = 1 := (FieldTable.find?_eq_some_iff.1 hkey).2
  cases hfind : (p.message index).find? number with
  | none =>
    have hnumber : keyField.number ≠ number := by
      rintro rfl
      rw [hkeynumber, MessageType.find?_of_fields hkey] at hfind
      cases hfind
    rw [readFieldWith_of_none hfind] at h
    obtain ⟨v, r, -, h⟩ := andThen_eq_ok.1 h
    obtain ⟨rfl, -⟩ := Prod.mk.inj (Except.ok.inj h)
    rw [get_addUnknown _ _ _ hnumber, hm]
  | some f =>
    rw [readFieldWith_of_some hfind] at h
    rcases hentry.only number f hfind with rfl | rfl
    · obtain rfl := Option.some.inj ((MessageType.find?_of_fields hkey).symm.trans hfind)
      rw [readKnown_of_single (hentry.key _ hkey).1] at h
      obtain ⟨v, r, hread, h⟩ := andThen_eq_ok.1 h
      obtain ⟨rfl, -⟩ := Prod.mk.inj (Except.ok.inj h)
      rw [get_assign_self]
      -- A key that is read is a key just if the zero of its kind is one.
      have hsame := isSome_ofValue?_of_readSingle p hread
      rwa [hzero, Option.isSome_none, Option.isSome_eq_false_iff,
        Option.isNone_iff_eq_none] at hsame
    · obtain rfl := Option.some.inj ((MessageType.find?_of_fields hvalue).symm.trans hfind)
      rw [readKnown_eq_andThen] at h
      obtain ⟨v, r, -, h⟩ := andThen_eq_ok.1 h
      obtain ⟨rfl, -⟩ := Prod.mk.inj (Except.ok.inj h)
      rw [get_key_assign_value hentry hkey hvalue, hm]

/-- An entry whose key is of a kind that keys cannot have is a message without a key. -/
theorem ofValue?_get_of_decode (hzero : MapKey.ofValue? (p.zero keyField.kind) = none)
    {bytes : List UInt8} {m : Message} (h : decode p index bytes = .ok m) :
    MapKey.ofValue? (m.get keyField) = none := by
  unfold decode merge at h
  cases hloop : whileLonger 0 (keyed (readField p nestingLimit index)) .empty bytes with
  | error f =>
    rw [hloop] at h
    cases h
  | ok r =>
    rw [hloop] at h
    obtain rfl := Except.ok.inj h
    refine whileLonger_invariant (I := fun m => MapKey.ofValue? (m.get keyField) = none)
      ?_ ?_ hloop
    · intro m input m' rest hm hstep
      rw [keyed_eq_andThen] at hstep
      obtain ⟨key, r, -, hstep⟩ := andThen_eq_ok.1 hstep
      exact ofValue?_get_of_readFieldWith hentry hkey hvalue hzero hm hstep
    · rw [get_empty_key hentry hkey, hzero]

end Entry

/-- What an entry's message has as its key and its value. -/
def entryOf (t : MessageType) (m : Message) : Option (MapKey × Value) :=
  match t.fields.find? 1, t.fields.find? 2 with
  | some keyField, some valueField =>
    (MapKey.ofValue? (m.get keyField)).map fun key => (key, m.get valueField)
  | _, _ => none

/-- An entry that is merged in its place is the one that its content is by itself as a message. -/
theorem agree_readMapEntry_decode {p : Pool} {index : Nat} (hentry : (p.message index).IsEntry p)
    {value content : List UInt8} (hv : readDelimited value = .ok (content, []))
    (rest : List UInt8) :
    Agree Eq
      (readMapEntry p (some (readField p 99)) nestingLimit
        (readValue p (some (readField p 99)) nestingLimit) (p.message index) (value ++ rest))
      (match (decode p index content).toOption.bind (entryOf (p.message index)) with
        | some e => .ok (e, rest)
        | none => .error ()) := by
  unfold readMapEntry entryOf
  cases hkey : (p.message index).fields.find? 1 with
  | none => cases (decode p index content).toOption <;> exact .error _ _
  | some keyField =>
    cases hvalue : (p.message index).fields.find? 2 with
    | none => cases (decode p index content).toOption <;> exact .error _ _
    | some valueField =>
      simp only
      -- A field whose zero is no key never gets a key; both readers fail whatever the content is.
      cases hzero : MapKey.ofValue? (p.zero keyField.kind) with
      | none =>
        cases hdecode : decode p index content with
        | error f => exact .error _ _
        | ok m =>
          have hnone := ofValue?_get_of_decode hentry hkey hvalue hzero hdecode
          simp only [Except.toOption, Option.bind_some, hnone, Option.map_none]
          exact .error _ _
      | some key =>
        have hplace := agree_entry_content hentry hkey hvalue key hzero (some (readField p 99))
          nestingLimit (value ++ rest)
        -- The loop in place agrees with that over the content by itself, which is `decode`.
        have hself := hplace.of_toOption_eq (delimited_append
          (local_keyed (local_readField p nestingLimit index))
          (consumes_keyed (local_readField p nestingLimit index)) hv .empty rest)
        simp only
        unfold decode merge
        generalize whileLonger 0 (keyed (readField p nestingLimit index)) .empty content = y
          at hself ⊢
        generalize delimited _ _ (value ++ rest) = x at hself ⊢
        cases y with
        | error f =>
          cases hself with
          | limit y => exact .limit _
          | error f e => exact .error f _
        | ok r =>
          cases hself with
          | limit y => exact .limit _
          | ok _ hholds =>
            simp only [Except.map, Except.toOption, Option.bind_some, hholds.1, Option.map_some]
            exact .ok rest (Prod.ext rfl hholds.2.symm)

end Message

end ColumnarRecords

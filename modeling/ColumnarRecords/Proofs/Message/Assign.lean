import ColumnarRecords.Message.Presence

/-!
# Assigning fields

What assignments do to a message as a whole. A field that is assigned twice holds what came last,
and nothing is left of the first assignment (`Message.assign_assign`); nothing is said of the order
of the entries, which need not be known for this.
-/

namespace ColumnarRecords

open Descriptor

/-- Assigning a field clears a field of the type just if the two are different members of one oneof.
-/
theorem Descriptor.MessageType.mem_siblings_iff {t : MessageType} {f g : Field}
    (hf : t.fields.find? f.number = some f) :
    f.number ∈ t.siblings g ↔ (∃ i, f.oneof = some i ∧ g.oneof = some i) ∧ f.number ≠ g.number := by
  obtain ⟨hmem, -⟩ := FieldTable.find?_eq_some_iff.1 hf
  unfold MessageType.siblings
  cases hg : g.oneof with
  | none => simp
  | some i =>
    simp only [List.mem_map, List.mem_filter, Bool.and_eq_true, beq_iff_eq, bne_iff_ne]
    constructor
    · rintro ⟨f', ⟨hf', honeof, hne⟩, hnumber⟩
      have hfind := FieldTable.find?_eq_some_iff.2 ⟨hf', hnumber⟩
      obtain rfl := Option.some.inj (hf.symm.trans hfind)
      exact ⟨⟨i, honeof, rfl⟩, hne⟩
    · rintro ⟨⟨j, honeof, hij⟩, hne⟩
      obtain rfl := Option.some.inj hij
      exact ⟨f, ⟨hmem, honeof, hne⟩, rfl⟩

namespace Message

/-- A field that a message does not hold is unset. -/
theorem get_of_fresh {f : Field} {m : Message} (hfresh : m.find? f.number = none) :
    m.get f = f.unsetValue := by
  rw [get, value?, hfresh]
  rfl

/-- Messages are equal if their entries are. -/
theorem ext {m m' : Message} (h : m.entries = m'.entries) : m = m' := by
  cases m
  cases m'
  exact congrArg Message.mk h

/-- An entry of a list into which one was put is this one or was there before. -/
theorem mem_insertEntry {number : Nat} {e : Entry} {entries : List (Nat × Entry)} {x : Nat × Entry}
    (h : x ∈ insertEntry number e entries) : x = (number, e) ∨ x ∈ entries := by
  induction entries with
  | nil => exact .inl (List.mem_singleton.1 h)
  | cons y rest ih =>
    obtain ⟨k, d⟩ := y
    unfold insertEntry at h
    split at h
    · rcases List.mem_cons.1 h with h | h
      · exact .inl h
      · exact .inr (List.mem_cons_of_mem _ h)
    · split at h
      · rcases List.mem_cons.1 h with h | h
        · exact .inl h
        · exact .inr h
      · rcases List.mem_cons.1 h with h | h
        · exact .inr (h ▸ List.mem_cons_self)
        · exact (ih h).imp_right (List.mem_cons_of_mem _)

/-- What is put in under a number replaces what was put in under it before. -/
theorem insertEntry_insertEntry (number : Nat) (e e' : Entry) (entries : List (Nat × Entry)) :
    insertEntry number e' (insertEntry number e entries) = insertEntry number e' entries := by
  induction entries with
  | nil => simp only [insertEntry, if_true]
  | cons y rest ih =>
    obtain ⟨k, d⟩ := y
    unfold insertEntry
    by_cases hk : k = number
    · simp only [if_pos hk, insertEntry, if_true]
    · by_cases hlt : number < k
      · simp only [if_neg hk, if_pos hlt, insertEntry, if_true]
      · simp only [if_neg hk, if_neg hlt, insertEntry, ih]

/-- What is left when numbers are cleared. -/
theorem entries_eraseAll (m : Message) (numbers : List Nat) :
    (m.eraseAll numbers).entries = m.entries.filter fun x => x.1 ∉ numbers := by
  unfold eraseAll
  induction numbers generalizing m with
  | nil => simp [List.filter_eq_self.2]
  | cons n rest ih =>
    rw [List.foldl_cons, ih, erase, List.filter_filter]
    refine List.filter_congr fun x _ => ?_
    rw [Bool.eq_iff_iff]
    simp only [Bool.and_eq_true, decide_eq_true_eq, bne_iff_ne, List.mem_cons, not_or]
    exact And.comm

/-- A field is not among those that share its oneof. -/
theorem number_notMem_siblings (t : MessageType) (f : Field) : f.number ∉ t.siblings f := by
  unfold MessageType.siblings
  cases f.oneof with
  | none => exact List.not_mem_nil
  | some i =>
    intro h
    obtain ⟨g, hg, hnumber⟩ := List.mem_map.1 h
    have hne := (List.mem_filter.1 hg).2
    simp [hnumber] at hne

/-- The other members of a oneof are not there after one was assigned. -/
theorem clearSiblings_assign (t : MessageType) (f : Field) (v : Value) (m : Message) :
    (m.assign t f v).clearSiblings t f = m.assign t f v := by
  refine ext ?_
  rw [clearSiblings, entries_eraseAll, List.filter_eq_self]
  intro x hx
  rw [decide_eq_true_eq]
  rcases mem_insertEntry hx with rfl | hx
  · exact number_notMem_siblings t f
  · rw [clearSiblings, entries_eraseAll] at hx
    exact of_decide_eq_true (List.mem_filter.1 hx).2

/-- A field that is assigned twice holds what came last. -/
theorem assign_assign (t : MessageType) (f : Field) (v v' : Value) (m : Message) :
    (m.assign t f v).assign t f v' = m.assign t f v' := by
  rw [assign, clearSiblings_assign, assign, assign, insert, insert, insert, insertEntry_insertEntry]

/-- What a field holds after it was assigned. -/
theorem get_assign_self (t : MessageType) (f : Field) (v : Value) (m : Message) :
    (m.assign t f v).get f = v := by
  unfold get value?
  rw [find?_assign, if_pos rfl]
  rfl

/-- A field that is not set stays so when another one is assigned. -/
theorem find?_assign_eq_none {t : MessageType} {f : Field} {m : Message} {number : Nat}
    (h : m.find? number = none) (hne : number ≠ f.number) (v : Value) :
    (m.assign t f v).find? number = none := by
  rw [find?_assign, if_neg hne, h]
  split <;> rfl

/-- What a field holds after another was assigned that does not clear it. -/
theorem get_assign_of_ne {t : MessageType} {f g : Field} (hne : g.number ≠ f.number)
    (hkeep : g.number ∉ t.siblings f) (v : Value) (m : Message) :
    (m.assign t f v).get g = m.get g := by
  unfold get value?
  rw [find?_assign, if_neg hne, if_neg hkeep]

/-- A number that the type does not know leaves the fields as they are. -/
theorem get_addUnknown (m : Message) (number : Nat) (v : Wire.WireValue) {g : Field}
    (h : g.number ≠ number) : (m.addUnknown number v).get g = m.get g := by
  have hfind : (m.addUnknown number v).find? g.number = m.find? g.number := by
    unfold addUnknown
    split <;> rw [find?_insert, if_neg h]
  unfold get value?
  rw [hfind]

end Message

end ColumnarRecords

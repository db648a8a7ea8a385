import ColumnarRecords.Column.Field
import ColumnarRecords.Proofs.Message.Assign

/-!
# Messages and maps in order

The entries of a message ascend by number and those of a map by key. Assigning keeps a message in
order (`Message.ascending_assign`), and messages in order that hold the same under every number are
equal (`Message.Ascending.ext`), so it does not matter in which order the fields of a message are
assigned, as long as none of them clears another (`Message.find?_assignAll`). A map that is put in
entry by entry in the order of its keys is the map itself (`Column.insertAll_of_ascending`).
-/

namespace ColumnarRecords

open Descriptor

namespace MapKey

/-- Of two texts only one is before the other. -/
theorem textLt_asymm {s t : List Char} (h : textLt s t = true) : textLt t s = false := by
  induction s generalizing t with
  | nil =>
    cases t with
    | nil => exact absurd h Bool.false_ne_true
    | cons c t => rfl
  | cons a s ih =>
    cases t with
    | nil => exact absurd h Bool.false_ne_true
    | cons b t =>
      unfold textLt at h ⊢
      by_cases hab : a = b
      · rw [if_pos hab] at h
        rw [if_pos hab.symm]
        exact ih h
      · rw [if_neg hab] at h
        rw [if_neg (Ne.symm hab)]
        have hlt := of_decide_eq_true h
        exact decide_eq_false (by omega)

/-- Of two keys only one is before the other. -/
theorem lt_asymm {a b : MapKey} (h : lt a b = true) : lt b a = false := by
  cases a <;> cases b <;> first
    | rfl
    | exact absurd h Bool.false_ne_true
    | exact textLt_asymm h
    | (simp only [lt, decide_eq_true_eq, decide_eq_false_iff_not] at h ⊢; omega)
    | skip
  case bool.bool a b => cases a <;> cases b <;> first | rfl | cases h

/-- An entry whose key is after those of a map is put in at its end. -/
theorem insert_of_lt {key : MapKey} {v : Value} {entries : List (MapKey × Value)}
    (h : ∀ e ∈ entries, lt e.1 key = true) : insert key v entries = entries ++ [(key, v)] := by
  induction entries with
  | nil => rfl
  | cons e rest ih =>
    obtain ⟨k, w⟩ := e
    have hlt : lt k key = true := h (k, w) List.mem_cons_self
    have hne : k ≠ key := by
      rintro rfl
      exact Bool.false_ne_true ((lt_asymm hlt).symm.trans hlt)
    unfold insert
    rw [if_neg hne, lt_asymm hlt, if_neg Bool.false_ne_true,
      ih fun e he => h e (List.mem_cons_of_mem _ he)]
    rfl

end MapKey

/-- Entries that ascend, after those of a map, are put in at its end. -/
theorem Column.insertAll_append {map entries : List (MapKey × Value)}
    (h : (map ++ entries).Pairwise fun a b => MapKey.lt a.1 b.1 = true) :
    insertAll entries map = map ++ entries := by
  induction entries generalizing map with
  | nil => exact (List.append_nil map).symm
  | cons e rest ih =>
    have hbefore : ∀ x ∈ map, MapKey.lt x.1 e.1 = true := fun x hx =>
      (List.pairwise_append.1 h).2.2 x hx e List.mem_cons_self
    have hstep : insertAll (e :: rest) map = insertAll rest (MapKey.insert e.1 e.2 map) := rfl
    rw [List.append_cons] at h
    rw [hstep, MapKey.insert_of_lt hbefore, List.append_cons map e rest]
    exact ih h

/-- A map that is put in entry by entry is the map. -/
theorem Column.insertAll_of_ascending {entries : List (MapKey × Value)}
    (h : entries.Pairwise fun a b => MapKey.lt a.1 b.1 = true) : insertAll entries [] = entries :=
  insertAll_append h

/-- A map into which an entry was put is not empty. -/
theorem MapKey.insert_ne_nil (key : MapKey) (v : Value) (entries : List (MapKey × Value)) :
    insert key v entries ≠ [] := by
  cases entries with
  | nil => exact List.cons_ne_nil _ _
  | cons e rest =>
    unfold insert
    split
    · exact List.cons_ne_nil _ _
    · split <;> exact List.cons_ne_nil _ _

/-- Nor is one into which some were put. -/
theorem Column.insertAll_ne_nil {entries map : List (MapKey × Value)} (h : entries ≠ []) :
    insertAll entries map ≠ [] := by
  induction entries generalizing map with
  | nil => exact absurd rfl h
  | cons e rest ih =>
    cases rest with
    | nil => exact MapKey.insert_ne_nil e.1 e.2 map
    | cons d rest => exact ih (List.cons_ne_nil _ _)

/-- In a list that ascends by number each item is the first of its number. -/
theorem find?_of_mem {α : Type} {items : List (Nat × α)} (h : items.Pairwise fun a b => a.1 < b.1)
    {n : Nat} {a : α} (hmem : (n, a) ∈ items) : items.find? (·.1 == n) = some (n, a) := by
  induction items with
  | nil => exact absurd hmem List.not_mem_nil
  | cons x rest ih =>
    obtain ⟨hhead, htail⟩ := List.pairwise_cons.1 h
    rcases List.mem_cons.1 hmem with rfl | hrest
    · exact List.find?_cons_of_pos (by simp)
    · have hlt := hhead (n, a) hrest
      rw [List.find?_cons_of_neg (by simp; omega)]
      exact ih htail hrest

namespace Message

/-- The entries ascend by number, none coming twice. -/
def Ascending (m : Message) : Prop :=
  m.entries.Pairwise fun a b => a.1 < b.1

/-- In ascending entries what is found under a number is what stands there. -/
theorem Ascending.find?_eq_some_iff {m : Message} (h : m.Ascending) {n : Nat} {e : Entry} :
    m.find? n = some e ↔ (n, e) ∈ m.entries := by
  unfold find?
  constructor
  · intro hfind
    obtain ⟨⟨k, d⟩, hk, rfl⟩ := Option.map_eq_some_iff.1 hfind
    have hn : k = n := by simpa using List.find?_some hk
    exact hn ▸ List.mem_of_find?_eq_some hk
  · intro hmem
    rw [find?_of_mem h hmem]
    rfl

/-- Messages in order that hold the same are equal. -/
theorem Ascending.ext {m m' : Message} (h : m.Ascending) (h' : m'.Ascending)
    (hfind : ∀ n e, m.find? n = some e ↔ m'.find? n = some e) : m = m' := by
  refine Message.ext ?_
  have hmem : ∀ x, x ∈ m.entries ↔ x ∈ m'.entries := by
    intro x
    rw [← h.find?_eq_some_iff, ← h'.find?_eq_some_iff]
    exact hfind x.1 x.2
  have hnodup : ∀ {m : Message}, m.Ascending → m.entries.Nodup := by
    intro m hm
    refine List.Pairwise.imp ?_ hm
    rintro a b hlt rfl
    exact Nat.lt_irrefl _ hlt
  have hperm := (List.perm_ext_iff_of_nodup (hnodup h) (hnodup h')).2 hmem
  -- Lists of the same elements that both ascend are equal.
  refine List.Perm.eq_of_pairwise (fun a b _ _ hab hba => ?_) h h' hperm
  exact absurd hab (Nat.lt_asymm hba)

/-- Entries in order stay so when one is put in. -/
theorem pairwise_insertEntry {number : Nat} {e : Entry} {entries : List (Nat × Entry)}
    (h : entries.Pairwise fun a b => a.1 < b.1) :
    (insertEntry number e entries).Pairwise fun a b => a.1 < b.1 := by
  induction entries with
  | nil => exact List.pairwise_singleton _ _
  | cons x rest ih =>
    obtain ⟨k, d⟩ := x
    obtain ⟨hhead, htail⟩ := List.pairwise_cons.1 h
    -- The entry replaces the first of its number, stands before it, or goes further on.
    unfold insertEntry
    split
    · rename_i hk
      subst hk
      exact List.pairwise_cons.2 ⟨hhead, htail⟩
    · split
      · rename_i hlt
        refine List.pairwise_cons.2 ⟨fun y hy => ?_, h⟩
        rcases List.mem_cons.1 hy with rfl | hy
        · exact hlt
        · exact Nat.lt_trans hlt (hhead y hy)
      · refine List.pairwise_cons.2 ⟨fun y hy => ?_, ih htail⟩
        rcases mem_insertEntry hy with rfl | hy
        · show k < number
          omega
        · exact hhead y hy

/-- Assigning keeps a message in order. -/
theorem ascending_assign {t : MessageType} {f : Field} {v : Value} {m : Message}
    (h : m.Ascending) : (m.assign t f v).Ascending := by
  refine pairwise_insertEntry ?_
  rw [clearSiblings, entries_eraseAll]
  exact h.filter _

/-- A message with fields assigned one after another. -/
def assignAll (t : MessageType) (fields : List (Field × Value)) (m : Message) : Message :=
  fields.foldl (fun m x => m.assign t x.1 x.2) m

/-- Fields and then others are assigned. -/
theorem assignAll_append (t : MessageType) (fields others : List (Field × Value)) (m : Message) :
    m.assignAll t (fields ++ others) = (m.assignAll t fields).assignAll t others :=
  List.foldl_append

/-- Assigning fields keeps a message in order. -/
theorem ascending_assignAll {t : MessageType} {fields : List (Field × Value)} {m : Message}
    (h : m.Ascending) : (m.assignAll t fields).Ascending := by
  induction fields generalizing m with
  | nil => exact h
  | cons x rest ih => exact ih (ascending_assign h)

/-- A message holds a field that was assigned to it and what it held before, if it held nothing of
this field or of those that assigning it clears. -/
theorem find?_assign_eq_some_iff {t : MessageType} {f : Field} {m : Message}
    (hfresh : m.find? f.number = none) (hold : ∀ n ∈ t.siblings f, m.find? n = none) (v : Value)
    (n : Nat) (e : Entry) :
    (m.assign t f v).find? n = some e ↔ (f.number = n ∧ .value v = e) ∨ m.find? n = some e := by
  have hcleared : (if n ∈ t.siblings f then none else m.find? n) = m.find? n := by
    by_cases hn : n ∈ t.siblings f
    · rw [if_pos hn, hold n hn]
    · rw [if_neg hn]
  rw [find?_assign, hcleared]
  by_cases hn : n = f.number
  · subst hn
    rw [if_pos rfl, hfresh]
    simp
  · rw [if_neg hn]
    simp [Ne.symm hn]

/-- A message holds the fields that were assigned to it and what it held before, if the fields have
different numbers and none of them clears another or what was there. -/
theorem find?_assignAll {t : MessageType} {fields : List (Field × Value)}
    (hdistinct : fields.Pairwise fun x y => x.1.number ≠ y.1.number)
    (hkeep : ∀ x ∈ fields, ∀ y ∈ fields, y.1.number ∉ t.siblings x.1) {m : Message}
    (hfresh : ∀ x ∈ fields, m.find? x.1.number = none)
    (hold : ∀ x ∈ fields, ∀ n ∈ t.siblings x.1, m.find? n = none) (n : Nat) (e : Entry) :
    (m.assignAll t fields).find? n = some e ↔
      (∃ x ∈ fields, x.1.number = n ∧ .value x.2 = e) ∨ m.find? n = some e := by
  induction fields generalizing m with
  | nil => simp [assignAll]
  | cons x rest ih =>
    obtain ⟨hhead, htail⟩ := List.pairwise_cons.1 hdistinct
    have hx : x ∈ x :: rest := List.mem_cons_self
    have hsub : ∀ {y}, y ∈ rest → y ∈ x :: rest := List.mem_cons_of_mem x
    -- The first field is neither one of the others nor one that they clear.
    have hfresh' : ∀ y ∈ rest, (m.assign t x.1 x.2).find? y.1.number = none := by
      intro y hy
      exact find?_assign_eq_none (hfresh y (hsub hy)) (hhead y hy).symm x.2
    have hold' : ∀ y ∈ rest, ∀ k ∈ t.siblings y.1, (m.assign t x.1 x.2).find? k = none := by
      intro y hy k hk
      have hne : k ≠ x.1.number := by
        rintro rfl
        exact hkeep y (hsub hy) x hx hk
      exact find?_assign_eq_none (hold y (hsub hy) k hk) hne x.2
    have hrest := ih htail (fun y hy z hz => hkeep y (hsub hy) z (hsub hz)) hfresh' hold'
    have hone := find?_assign_eq_some_iff (hfresh x hx) (hold x hx) x.2 n e
    refine hrest.trans ?_
    rw [hone]
    simp only [List.mem_cons, or_and_right, exists_or, exists_eq_left]
    exact or_left_comm.trans or_assoc.symm

end Message

end ColumnarRecords

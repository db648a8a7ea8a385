import ColumnarRecords.Proofs.Projection.Numbers
import ColumnarRecords.Proofs.Reader.Opening

/-!
# Which fields a plan lists

A plan lists the numbers that are required and the fields of them that have no column. A list of
either names each field once, in the order in which it is first asked for, if
`Plan.ListsOnce` holds of it. Plans for selections are so, as resolving a selection leaves out what
was named before; plans for numbers keep what they are given, less the numbers that the message
type has not, and so they list a field as often as its number is given (`Plan.listed`).

What `ListsOnce` says is brought back to one fact about lists: the first of each of the members of a
kind stand in the order in which they first come (`pairwise_idxOf_eraseDups_filter`).
-/

namespace ColumnarRecords

open Descriptor

/-- Of the members of a kind, the first of each stand in the order in which they first come. -/
theorem pairwise_idxOf_eraseDups_filter {α : Type} [DecidableEq α] (p : α → Bool) (l : List α) :
    (l.filter p).eraseDups.Pairwise fun a b => l.idxOf a < l.idxOf b := by
  induction l using List.reverseRecOn with
  | nil => exact .nil
  | append_singleton l a ih =>
    have hmem : ∀ {b}, b ∈ (l.filter p).eraseDups → b ∈ l := fun hb =>
      (List.mem_filter.1 (List.mem_eraseDups.1 hb)).1
    -- One more member leaves the places of the others as they are.
    have hothers : (l.filter p).eraseDups.Pairwise fun b c =>
        (l ++ [a]).idxOf b < (l ++ [a]).idxOf c := by
      refine ih.imp_of_mem fun {b c} hb hc hlt => ?_
      rw [List.idxOf_append, List.idxOf_append, if_pos (hmem hb), if_pos (hmem hc)]
      exact hlt
    rw [List.filter_append, List.filter_singleton]
    cases ha : p a with
    | false =>
      rw [cond_false, List.append_nil]
      exact hothers
    | true =>
      rw [cond_true, eraseDups_concat]
      split_ifs with hold
      · exact hothers
      · have hnew : a ∉ l := fun hal =>
          hold (List.mem_eraseDups.2 (List.mem_filter.2 ⟨hal, ha⟩))
        refine List.pairwise_append.2 ⟨hothers, List.pairwise_singleton _ _, ?_⟩
        intro b hb c hc
        obtain rfl := List.mem_singleton.1 hc
        rw [List.idxOf_append, List.idxOf_append, if_pos (hmem hb), if_neg hnew]
        exact Nat.lt_add_left _ (List.idxOf_lt_length_iff.2 (hmem hb))

namespace Selection

/-- The numbers of the fields that a selection names, as often as it names them. -/
def asked (s : Schema) : Selection → List Nat
  | all => s.fields.map (·.number)
  | indices list => list.filterMap fun index => (s.field? index.toNat).map (·.number)

variable {s : Schema} {selection : Selection} {n : Nat}

/-- The numbers of a selection are those that it names, the first of each. -/
theorem numbers_eq_eraseDups_asked : selection.numbers s = (selection.asked s).eraseDups := by
  cases selection with
  | all => exact (eraseDups_eq_self s.nodup_numbers).symm
  | indices list => rfl

/-- All numbers that a selection names are required. -/
theorem requiredOf_asked : Plan.requiredOf s (selection.asked s) = selection.asked s := by
  refine List.filter_eq_self.2 fun n hn => ?_
  have hnumber : n ∈ selection.numbers s := by
    rw [numbers_eq_eraseDups_asked]
    exact List.mem_eraseDups.2 hn
  exact Option.isSome_iff_exists.2 (fieldOfNumber?_of_mem_numbers hnumber)

end Selection

namespace Plan

variable {s : Schema} {numbers asked : List Nat} {stored : StoredFields} {p : Plan}
  {selection : Selection}

/-- The plan lists each field once: the numbers asked for that the message type has, in the order in
which they are first asked for, and each unknown field. -/
structure ListsOnce (s : Schema) (asked : List Nat) (p : Plan) : Prop where
  /-- No required number comes twice. -/
  nodup : p.required.Nodup
  /-- The required numbers are those asked for that the message type has. -/
  mem_iff : ∀ n, n ∈ p.required ↔ n ∈ asked ∧ ∃ f, s.fieldOfNumber? n = some f
  /-- What comes earlier is first asked for earlier. -/
  order : p.required.Pairwise fun m n => asked.idxOf m < asked.idxOf n
  /-- There are as many required numbers as different ones are asked for that the type has. -/
  length_eq : p.required.length = (requiredOf s asked).toFinset.card
  /-- No unknown field comes twice. -/
  unknown_nodup : (p.unknownFields.map (·.number)).Nodup

/-- The numbers of the missing fields are the required numbers that no column holds. -/
theorem map_number_missingOf (s : Schema) (numbers : List Nat) (stored : StoredFields) :
    (missingOf s numbers stored).map (·.number) =
      (requiredOf s numbers).filter fun n => ¬stored.Holds n := by
  have hfound : ∀ l : List Nat, (∀ n ∈ l, ∃ f, s.fieldOfNumber? n = some f ∧ f.number = n) →
      (l.filterMap s.fieldOfNumber?).map (·.number) = l := by
    intro l hl
    induction l with
    | nil => rfl
    | cons n rest ih =>
      obtain ⟨⟨f, hf, hnumber⟩, hrest⟩ := List.forall_mem_cons.1 hl
      rw [List.filterMap_cons_some hf, List.map_cons, ih hrest, hnumber]
  exact hfound _ fun n hn => exists_field_of_mem_requiredOf (List.mem_filter.1 hn).1

/-- A plan lists the numbers asked for that the message type has, and of these the unknown fields
are those that no column holds. -/
theorem listed_of_ofNumbers (h : ofNumbers s numbers stored = .ok p) :
    p.required = requiredOf s numbers ∧
      p.unknownFields.map (·.number) = p.required.filter fun n => ¬stored.Holds n := by
  rw [eq_of_ofNumbers h]
  exact ⟨rfl, map_number_missingOf s numbers stored⟩

/-- A plan lists each field once if the required numbers are the first of each of those asked
for. -/
theorem listsOnce_of_eraseDups (h : ofNumbers s numbers stored = .ok p)
    (hfirst : p.required = (requiredOf s asked).eraseDups) : p.ListsOnce s asked := by
  have horder : p.required.Pairwise fun m n => asked.idxOf m < asked.idxOf n := by
    rw [hfirst]
    exact pairwise_idxOf_eraseDups_filter _ asked
  have hnodup : p.required.Nodup := horder.imp fun hlt heq => hlt.ne (congrArg (asked.idxOf ·) heq)
  have hmem : ∀ n, n ∈ p.required ↔ n ∈ requiredOf s asked := fun n => by
    rw [hfirst, List.mem_eraseDups]
  refine ⟨hnodup, fun n => (hmem n).trans mem_requiredOf, horder, ?_, ?_⟩
  · have hsame : p.required.toFinset = (requiredOf s asked).toFinset :=
      Finset.ext fun n => by simp [hmem]
    rw [← hsame, List.toFinset_card_of_nodup hnodup]
  · rw [(listed_of_ofNumbers h).2]
    exact hnodup.filter _

/-- A plan for a selection is the plan for its numbers. -/
theorem ofNumbers_of_ofSelection (h : ofSelection s selection stored = .ok p) :
    ofNumbers s (selection.numbers s) stored = .ok p := by
  unfold ofSelection at h
  rw [Selection.resolve_eq] at h
  cases hrange : selection.outOfRange? s with
  | some index =>
    rw [hrange] at h
    cases h
  | none =>
    rw [hrange] at h
    exact h

/-- A plan for a selection lists each field once. -/
theorem listsOnce_of_ofSelection (h : ofSelection s selection stored = .ok p) :
    p.ListsOnce s (selection.asked s) := by
  have hplan := ofNumbers_of_ofSelection h
  refine listsOnce_of_eraseDups hplan ?_
  rw [(listed_of_ofNumbers hplan).1, Selection.requiredOf_asked,
    ← Selection.numbers_eq_eraseDups_asked]
  exact List.filter_eq_self.2 fun n hn =>
    Option.isSome_iff_exists.2 (Selection.fieldOfNumber?_of_mem_numbers hn)

/-- A plan for numbers lists each field once exactly if no number is given twice that the message
type has. -/
theorem listsOnce_iff (h : ofNumbers s numbers stored = .ok p) :
    p.ListsOnce s numbers ↔ (requiredOf s numbers).Nodup := by
  have hrequired := (listed_of_ofNumbers h).1
  constructor
  · exact fun honce => hrequired ▸ honce.nodup
  · exact fun hnodup =>
      listsOnce_of_eraseDups h (hrequired.trans (eraseDups_eq_self hnodup).symm)

/-- A plan for a selection lists each field once, in the order in which the selection first names
it. A plan for numbers lists those that the message type has as they are given, and the unknown
fields among them; so it lists each field once exactly if no such number is given twice. -/
theorem listed (s : Schema) (stored : StoredFields) :
    (∀ selection p, ofSelection s selection stored = .ok p →
      p.ListsOnce s (selection.asked s)) ∧
      ∀ numbers p, ofNumbers s numbers stored = .ok p →
        p.required = requiredOf s numbers ∧
          p.unknownFields.map (·.number) = p.required.filter (fun n => ¬stored.Holds n) ∧
          (p.ListsOnce s numbers ↔ (requiredOf s numbers).Nodup) := by
  refine ⟨fun selection p => listsOnce_of_ofSelection, fun numbers p h => ?_⟩
  obtain ⟨hrequired, hunknown⟩ := listed_of_ofNumbers h
  exact ⟨hrequired, hunknown, listsOnce_iff h⟩

/-- The map and the text are listed once if they are selected by indices of which one comes twice,
and the map is listed twice if its number is given twice. -/
theorem listed_regular :
    (∃ p, ofSelection Sample.regular (.indices [2, 0, 2]) ⟨[1, -1]⟩ = .ok p ∧
      p.ListsOnce Sample.regular [3, 1, 3]) ∧
      ∃ p, ofNumbers Sample.regular [3, 9, 1, 3] ⟨[1, -1]⟩ = .ok p ∧
        p.required = [3, 1, 3] ∧ p.unknownFields.map (·.number) = [3, 3] ∧
        ¬p.ListsOnce Sample.regular [3, 9, 1, 3] := by
  obtain ⟨honce, hall⟩ := listed Sample.regular ⟨[1, -1]⟩
  refine ⟨⟨_, rfl, honce (.indices [2, 0, 2]) _ rfl⟩, ?_⟩
  obtain ⟨p, hplan⟩ : ∃ p, ofNumbers Sample.regular [3, 9, 1, 3] ⟨[1, -1]⟩ = .ok p := ⟨_, rfl⟩
  obtain ⟨hrequired, hunknown, hiff⟩ := hall _ p hplan
  refine ⟨p, hplan, hrequired, ?_, fun h => absurd (hiff.1 h) (by decide)⟩
  rw [hunknown, hrequired]
  decide

/-- A plan for a number that is given twice lists its field twice, and counts and shows it so. -/
theorem not_listsOnce_repeated :
    ∃ p, ofNumbers Sample.regular [3, 3] ⟨[1, -1]⟩ = .ok p ∧ p.required = [3, 3] ∧
      p.text = "message: a.A\nreading 1 (including unknowns column) out of 2 stored columns " ++
        "for 2 required fields\n  column 1: unknowns (m, m)\n" ∧
      ¬p.ListsOnce Sample.regular [3, 3] :=
  ⟨_, rfl, rfl, by decide, fun h => absurd h.nodup (by decide)⟩

end Plan

end ColumnarRecords

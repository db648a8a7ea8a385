import ColumnarRecords.Proofs.Projection.Columnwise
import ColumnarRecords.Proofs.Projection.Retagged

/-!
# Asking for more

A read that asks for more fields takes at least the columns of one that asks for fewer, and gives
the fields of the latter as the latter does (`Plan.materialize_widened`). The two plans may differ
in whether they read the column of all other fields, which is merged whole into what the known
columns have given: the fields asked for first then have columns of their own, so it is enough that
the column of all other fields has none of these (`Record.KeepsApart`).

A member of a oneof is left out, since another member that is asked for in addition may clear it.
-/

namespace ColumnarRecords

open Descriptor Wire Message

/-- The column of all other fields of a record, decoded by itself, gives no field that has a column
of its own. -/
def Record.KeepsApart (r : Record) (s : Schema) (stored : StoredFields) : Prop :=
  ∀ column bytes others, stored.unknownsColumn? = some column → r.column? column = some bytes →
    decode s.pool s.index bytes = .ok others → ∀ n, stored.Holds n → others.find? n = none

/-- Of the columns found by a lookup those that satisfy a condition are found by the lookup that
the condition restricts. -/
theorem StoredFields.filter_known {α : Type} (find? : Nat → Option α) (q : α → Bool)
    (stored : StoredFields) :
    ((stored.known find?).filter fun x => q x.2) = stored.known fun n => (find? n).filter q := by
  unfold known
  rw [List.filter_filterMap]
  congr 1
  funext x
  obtain ⟨id, position⟩ := x
  by_cases hid : 0 ≤ id.toInt
  · simp only [if_pos hid]
    cases find? id.toInt.toNat with
    | none => rfl
    | some a => cases hq : q a <;> simp [Option.filter, hq]
  · simp only [if_neg hid]
    rfl

namespace Plan

section Wider

variable {s : Schema} {stored : StoredFields} {numbers wider : List Nat}
  (hsub : ∀ n ∈ numbers, n ∈ wider)
include hsub

/-- What is required is required of a wider read. -/
theorem requiredOf_subset {n : Nat} (hn : n ∈ requiredOf s numbers) : n ∈ requiredOf s wider := by
  obtain ⟨hmem, hf⟩ := mem_requiredOf.1 hn
  exact mem_requiredOf.2 ⟨hsub n hmem, hf⟩

/-- A known column is a known column of a wider read. -/
theorem knownOf_subset {known : Nat × Field} (h : known ∈ knownOf s numbers stored) :
    known ∈ knownOf s wider stored := by
  obtain ⟨hmem, hf, hid⟩ := mem_knownOf.1 h
  exact mem_knownOf.2 ⟨requiredOf_subset hsub hmem, hf, hid⟩

/-- The known columns of a number that is asked for are those of a wider read. -/
theorem filter_knownOf {n : Nat} (hn : n ∈ numbers) :
    ((knownOf s numbers stored).filter fun known => known.2.number = n) =
      (knownOf s wider stored).filter fun known => known.2.number = n := by
  -- Both sides are the columns of a lookup that knows no other number.
  refine (stored.filter_known _ fun f : Field => decide (f.number = n)).trans ?_
  refine Eq.trans ?_ (stored.filter_known _ fun f : Field => decide (f.number = n)).symm
  refine stored.known_congr fun k => ?_
  cases hf : s.fieldOfNumber? k with
  | none => simp
  | some f =>
    have hnumber : f.number = k := (FieldTable.find?_eq_some_iff.1 hf).2
    by_cases hk : k = n
    · subst hk
      have hrequired : k ∈ requiredOf s numbers := mem_requiredOf.2 ⟨hn, f, hf⟩
      rw [if_pos hrequired, if_pos (requiredOf_subset hsub hrequired)]
    · -- Other numbers are left out on both sides.
      have hne : decide (f.number = n) = false := decide_eq_false (hnumber ▸ hk)
      have hnone : ∀ x : Option Field, x = some f ∨ x = none →
          x.filter (fun f => decide (f.number = n)) = none := by
        rintro x (rfl | rfl)
        · rw [Option.filter_some, hne]
          rfl
        · rfl
      rw [hnone _ (ite_eq_or_eq _ _ _), hnone _ (ite_eq_or_eq _ _ _)]

end Wider

/-- The column of all other fields is read if a field is missing. -/
theorem unknownsColumn_of_ofNumbers {s : Schema} {numbers : List Nat} {stored : StoredFields}
    {p : Plan} (h : ofNumbers s numbers stored = .ok p) :
    p.unknownsColumn =
      if missingOf s numbers stored = [] then none else stored.unknownsColumn? := by
  rw [eq_of_ofNumbers h]

/-- A plan that does not read the column of all other fields has a column of each required field. -/
theorem holds_of_unknownsColumn_none {s : Schema} {numbers : List Nat} {stored : StoredFields}
    {p : Plan} (h : ofNumbers s numbers stored = .ok p) (hnone : p.unknownsColumn = none) {n : Nat}
    (hn : n ∈ requiredOf s numbers) : stored.Holds n := by
  by_contra hnot
  have hmissing : missingOf s numbers stored ≠ [] := missingOf_ne_nil_iff.2 ⟨n, hn, hnot⟩
  rw [ofNumbers_eq, if_neg hmissing] at h
  split at h
  · cases h
  · obtain rfl := Except.ok.inj h
    cases hnone

/-- Plans of one schema read a known column alike. -/
theorem addKnown_congr {p p' : Plan} (h : p.schema = p'.schema) (r : Record) :
    p.addKnown r = p'.addKnown r := by
  funext m known
  unfold addKnown
  rw [h]

/-- Plans of one schema read the column of all other fields alike. -/
theorem addUnknowns_congr {p p' : Plan} (h : p.schema = p'.schema) (r : Record) :
    p.addUnknowns r = p'.addUnknowns r := by
  funext m column
  unfold addUnknowns
  rw [h]

section Plans

variable {s : Schema} {stored : StoredFields} {numbers wider : List Nat}
  (hsub : ∀ n ∈ numbers, n ∈ wider) {p p' : Plan} (hp : ofNumbers s numbers stored = .ok p)
  (hp' : ofNumbers s wider stored = .ok p')
include hsub hp hp'

/-- A known column of a plan is one of a plan that reads more. -/
theorem known_subset {known : Nat × Field} (h : known ∈ p.known) : known ∈ p'.known := by
  obtain ⟨-, hknown, -, -⟩ := known_of_ofNumbers hp
  obtain ⟨-, hknown', -, -⟩ := known_of_ofNumbers hp'
  rw [hknown] at h
  rw [hknown']
  exact knownOf_subset hsub h

/-- A plan that reads the column of all other fields does so when it reads more. -/
theorem unknownsColumn_of_narrower {column : Nat} (h : p.unknownsColumn = some column) :
    p'.unknownsColumn = some column := by
  rw [unknownsColumn_of_ofNumbers hp] at h
  split at h
  · cases h
  · rename_i hmissing
    obtain ⟨n, hn, hholds⟩ := missingOf_ne_nil_iff.1 hmissing
    have hmissing' := missingOf_ne_nil_iff.2 ⟨n, requiredOf_subset hsub hn, hholds⟩
    rw [unknownsColumn_of_ofNumbers hp', if_neg hmissing', h]

/-- The columns of a plan are among those of a plan that reads more. -/
theorem columns_subset {column : Nat} (h : column ∈ p.columns) : column ∈ p'.columns := by
  rcases List.mem_append.1 h with hknown | hlast
  · obtain ⟨known, hmem, rfl⟩ := List.mem_map.1 hknown
    exact List.mem_append_left _ (List.mem_map_of_mem (known_subset hsub hp hp' hmem))
  · have hcolumn := unknownsColumn_of_narrower hsub hp hp' (Option.mem_toList.1 hlast)
    exact List.mem_append_right _ (Option.mem_toList.2 hcolumn)

/-- The known columns leave the same of a field that is asked for, whatever else is read. -/
theorem find?_known_widened {r : Record} {m m' : Message}
    (h : p.known.foldlM (p.addKnown r) .empty = .ok m)
    (h' : p'.known.foldlM (p'.addKnown r) .empty = .ok m') {n : Nat} (hn : n ∈ numbers)
    (hspared : s.type.Spares n) : m.find? n = m'.find? n := by
  obtain ⟨hschema, hknown, -, -⟩ := known_of_ofNumbers hp
  obtain ⟨hschema', hknown', -, -⟩ := known_of_ofNumbers hp'
  have hclear : ∀ numbers, ∀ known ∈ knownOf s numbers stored, n ∉ s.type.siblings known.2 := by
    intro numbers known hmem
    obtain ⟨-, hfind, -⟩ := mem_knownOf.1 hmem
    exact hspared known.2 known.2.number (MessageType.find?_of_fields hfind)
  -- Of both plans only the columns of this number matter, and these are the same columns.
  obtain ⟨m₁, hfold, hfind⟩ := find?_foldlM_addKnown (n := n)
    (by rw [hknown, hschema]; exact hclear numbers) rfl h
  obtain ⟨m₁', hfold', hfind'⟩ := find?_foldlM_addKnown (n := n)
    (by rw [hknown', hschema']; exact hclear wider) rfl h'
  have hsame : m₁ = m₁' := by
    rw [hknown', ← filter_knownOf hsub hn, ← hknown,
      addKnown_congr (hschema'.trans hschema.symm) r] at hfold'
    exact Except.ok.inj (hfold.symm.trans hfold')
  rw [hfind, hfind', hsame]

end Plans

/-- A wider read takes the columns of a narrower one. If it gives a message of a record whose column
of all other fields keeps apart, then so does the narrower one, and each field asked for of the
latter that no other field clears has the same value in both messages, or none. -/
theorem materialize_widened {s : Schema} {stored : StoredFields} {numbers wider : List Nat}
    (hsub : ∀ n ∈ numbers, n ∈ wider) {p p' : Plan} (hp : ofNumbers s numbers stored = .ok p)
    (hp' : ofNumbers s wider stored = .ok p') {r : Record} (hapart : r.KeepsApart s stored) :
    (∀ c ∈ p.columns, c ∈ p'.columns) ∧
      ∀ m', p'.materialize r = .ok m' → ∃ m, p.materialize r = .ok m ∧
        ∀ f, f.number ∈ numbers → s.fieldOfNumber? f.number = some f → s.type.Spares f.number →
          m.value? f.number = m'.value? f.number := by
  refine ⟨fun c hc => columns_subset hsub hp hp' hc, fun m' hm' => ?_⟩
  obtain ⟨hschema, -, -, -⟩ := known_of_ofNumbers hp
  obtain ⟨hschema', -, -, hlast'⟩ := known_of_ofNumbers hp'
  have hsame := hschema'.trans hschema.symm
  obtain ⟨m₀', hfold', hrest'⟩ := materialize_eq_ok.1 hm'
  -- The known columns of the narrower plan are among those that were read.
  obtain ⟨m₀, hfold⟩ : ∃ m₀, p.known.foldlM (p.addKnown r) .empty = .ok m₀ := by
    refine exists_foldlM_addKnown_iff.2 fun known hmem => ?_
    rw [← addKnown_congr hsame r]
    exact exists_foldlM_addKnown_iff.1 ⟨m₀', hfold'⟩ known (known_subset hsub hp hp' hmem)
  have hknown : ∀ n ∈ numbers, s.type.Spares n → m₀.find? n = m₀'.find? n :=
    fun n hn => find?_known_widened hsub hp hp' hfold hfold' hn
  have hvalue : ∀ {n : Nat} {m : Message}, m.find? n = m'.find? n → m.value? n = m'.value? n := by
    intro n m hfind
    unfold value?
    rw [hfind]
  cases hcolumn : p.unknownsColumn with
  | some column =>
    -- Both plans read the column of all other fields, which makes the same edit of both messages.
    have hcolumn' := unknownsColumn_of_narrower hsub hp hp' hcolumn
    obtain ⟨hnone, -⟩ | ⟨c, hc, hadd'⟩ := hrest'
    · cases hcolumn'.symm.trans hnone
    obtain rfl := Option.some.inj (hcolumn'.symm.trans hc)
    obtain ⟨e, hfail⟩ | ⟨g, -, hg, -, -, hok⟩ := addUnknowns_cases p' r column
    · cases (hfail m₀').symm.trans hadd'
    obtain rfl := Except.ok.inj ((hok m₀').symm.trans hadd')
    have hadd : p.addUnknowns r m₀ column = .ok (g m₀) := by
      rw [← addUnknowns_congr hsame r, hok]
    refine ⟨g m₀, materialize_eq_ok.2 ⟨m₀, hfold, .inr ⟨column, hcolumn, hadd⟩⟩, ?_⟩
    intro f hf _ hspared
    exact hvalue (hg.find?_congr (hknown f.number hf hspared))
  | none =>
    refine ⟨m₀, materialize_eq_ok.2 ⟨m₀, hfold, .inl ⟨hcolumn, rfl⟩⟩, ?_⟩
    intro f hf hfield hspared
    refine hvalue ((hknown f.number hf hspared).trans ?_)
    obtain ⟨-, rfl⟩ | ⟨column, hcolumn', hadd'⟩ := hrest'
    · rfl
    -- Only the wider plan reads the column of all other fields, so the field has its own column,
    -- and the edit leaves the field alone.
    obtain ⟨e, hfail⟩ | ⟨g, bytes, hg, hbytes, hdecode, hok⟩ := addUnknowns_cases p' r column
    · cases (hfail m₀').symm.trans hadd'
    obtain rfl := Except.ok.inj ((hok m₀').symm.trans hadd')
    have hholds : stored.Holds f.number :=
      holds_of_unknownsColumn_none hp hcolumn (mem_requiredOf.2 ⟨hf, f, hfield⟩)
    rw [hschema'] at hdecode hg
    have huntouched := hapart column bytes _ (hlast' column hcolumn') hbytes hdecode f.number hholds
    have hclear : ∀ g, s.type.find? g.number = some g → f.number ∉ s.type.siblings g :=
      fun g hg => hspared g g.number hg
    exact ((hg.find?_of_untouched hclear huntouched).2 m₀').symm

/-- A plan that reads the regular map and nothing else. -/
def mapPlan : Plan :=
  ⟨Sample.regular, [(0, Sample.field "a.A." "m" 3 (.message 1) (.map 1) (.message .empty))], none,
    [], [3], 2⟩

/-- A record of a map's entry in its own column and a text among all other fields. -/
def mapRecord : Record := ⟨[[5, 10, 1, 107, 16, 5], [10, 1, 120]]⟩

/-- The text among all other fields is no map. -/
theorem keepsApart_mapRecord : mapRecord.KeepsApart Sample.regular ⟨[3, -1]⟩ := by
  intro column bytes others hcolumn hbytes hdecode n hholds
  obtain rfl : 1 = column := Option.some.inj hcolumn
  obtain rfl := Option.some.inj hbytes
  have hothers : decode Sample.regular.pool Sample.regular.index [10, 1, 120] =
      .ok ⟨[(1, .value (.string "x"))]⟩ := by cbv
  obtain rfl := Except.ok.inj (hothers.symm.trans hdecode)
  obtain ⟨id, hid, hn⟩ := hholds
  rcases List.mem_cons.1 hid with rfl | hlast
  · obtain rfl : 3 = n := Int.ofNat.inj hn
    rfl
  · obtain rfl := List.mem_singleton.1 hlast
    cases hn

/-- The map is read from its column as it is when the text is asked for as well. -/
theorem materialize_widened_regular :
    ofNumbers Sample.regular [3] ⟨[3, -1]⟩ = .ok mapPlan ∧
      ofNumbers Sample.regular [1, 3] ⟨[3, -1]⟩ = .ok regularPlan ∧
      (∀ c ∈ mapPlan.columns, c ∈ regularPlan.columns) ∧
      ∃ m, mapPlan.materialize mapRecord = .ok m ∧
        m.value? 3 = some (.map [(.string "k", .i32 5)]) := by
  have hplan : ofNumbers Sample.regular [3] ⟨[3, -1]⟩ = .ok mapPlan := rfl
  have hwider : ofNumbers Sample.regular [1, 3] ⟨[3, -1]⟩ = .ok regularPlan := rfl
  obtain ⟨hcolumns, hread⟩ := materialize_widened (by simp) hplan hwider keepsApart_mapRecord
  have hboth : regularPlan.materialize mapRecord =
      .ok ⟨[(1, .value (.string "x")), (3, .value (.map [(.string "k", .i32 5)]))]⟩ := by cbv
  obtain ⟨m, hm, hsame⟩ := hread _ hboth
  let f := Sample.field "a.A." "m" 3 (.message 1) (.map 1) (.message .empty)
  have hfield : Sample.regular.fieldOfNumber? f.number = some f := rfl
  refine ⟨hplan, hwider, hcolumns, m, hm, ?_⟩
  exact hsame f List.mem_cons_self hfield (MessageType.spares_of_oneof hfield rfl)

end Plan

end ColumnarRecords

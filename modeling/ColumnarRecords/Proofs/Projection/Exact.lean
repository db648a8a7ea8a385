import ColumnarRecords.Projection.Plan
import ColumnarRecords.Proofs.Descriptor.Loading

/-!
# Plans are exact

A plan reads the columns that hold a required field, and the column of all other fields exactly if
a required field has no column of its own. `Plan.IsExact` says which plan that is: its columns, the
field that each of them gives, and how the required numbers are split between known and unknown
fields. `Plan.ofNumbers_exact` shows that planning gives this plan whatever the stored entries and
the required numbers are, fails exactly if a required field can come from nowhere, and depends on
the set of required numbers alone.

The proof rests on two facts about stored entries. `StoredFields.mem_known` says which columns the
walk over the entries finds, and `StoredFields.contains_iff` that the search for a number finds the
same ones; the walk compares signed entries with zero and the search with the number, so that the
two agree is not read off.
-/

namespace ColumnarRecords

open Descriptor

namespace StoredFields

/-- Some column holds the field of a number. -/
def Holds (stored : StoredFields) (number : Nat) : Prop :=
  ∃ id ∈ stored.ids, id.toInt = number

instance (stored : StoredFields) (number : Nat) : Decidable (stored.Holds number) :=
  inferInstanceAs (Decidable (∃ id ∈ stored.ids, id.toInt = number))

/-- The search for a number succeeds exactly if some column holds its field. -/
theorem contains_iff (stored : StoredFields) (number : Nat) :
    stored.contains number = true ↔ stored.Holds number := by
  simp [contains, Holds, isEntryOf]

/-- A known column is one whose entry is not negative and is found by the lookup. -/
theorem mem_known {α : Type} (find? : Nat → Option α) (stored : StoredFields) (column : Nat)
    (a : α) :
    (column, a) ∈ stored.known find? ↔
      ∃ id, stored.ids[column]? = some id ∧ 0 ≤ id.toInt ∧ find? id.toInt.toNat = some a := by
  simp only [known, List.mem_filterMap, Prod.exists]
  constructor
  · rintro ⟨id, position, hmem, h⟩
    rw [List.mem_zipIdx_iff_getElem?] at hmem
    split at h
    · rename_i hid
      simp only [Option.map_eq_some_iff, Prod.mk.injEq] at h
      obtain ⟨b, hb, rfl, rfl⟩ := h
      exact ⟨id, hmem, hid, hb⟩
    · exact absurd h (by simp)
  · rintro ⟨id, hget, hid, ha⟩
    refine ⟨id, column, List.mem_zipIdx_iff_getElem?.2 hget, ?_⟩
    rw [if_pos hid, ha]
    rfl

/-- The positions of a list ascend. -/
theorem pairwise_zipIdx {α : Type} (l : List α) (start : Nat) :
    (l.zipIdx start).Pairwise fun a b => a.2 < b.2 := by
  induction l generalizing start with
  | nil => exact .nil
  | cons a rest ih =>
    rw [List.zipIdx_cons, List.pairwise_cons]
    refine ⟨?_, ih (start + 1)⟩
    intro b hb
    have hle := List.le_snd_of_mem_zipIdx hb
    simp only
    omega

/-- The known columns ascend. -/
theorem pairwise_known {α : Type} (find? : Nat → Option α) (stored : StoredFields) :
    (stored.known find?).Pairwise fun a b => a.1 < b.1 := by
  unfold known
  refine (pairwise_zipIdx stored.ids 0).filterMap _ ?_
  rintro ⟨id, i⟩ ⟨id', j⟩ hlt b hb b' hb'
  simp only [Option.ite_none_right_eq_some, Option.map_eq_some_iff] at hb hb'
  obtain ⟨-, a, -, rfl⟩ := hb
  obtain ⟨-, a', -, rfl⟩ := hb'
  exact hlt

/-- Walks whose lookups agree find the same columns. -/
theorem known_congr {α : Type} {find? find?' : Nat → Option α} (stored : StoredFields)
    (h : ∀ n, find? n = find?' n) : stored.known find? = stored.known find?' := by
  rw [show find? = find?' from funext h]

/-- The column of all other fields is the last one, and its entry is `-1`. -/
theorem unknownsColumn?_eq_some_iff (stored : StoredFields) (column : Nat) :
    stored.unknownsColumn? = some column ↔
      stored.ids.getLast? = some unknownsId ∧ column + 1 = stored.columnCount := by
  unfold unknownsColumn? hasUnknownsColumn columnCount
  by_cases h : stored.ids.getLast? = some unknownsId
  · have hne : stored.ids ≠ [] := by
      rintro hnil
      simp [hnil] at h
    have hpos := List.length_pos_iff.2 hne
    simp only [h, beq_self_eq_true, if_true, Option.some.injEq, true_and]
    omega
  · simp [h]

/-- The entry of the column of all other fields is `-1`. -/
theorem getElem?_of_unknownsColumn? {stored : StoredFields} {column : Nat}
    (h : stored.unknownsColumn? = some column) : stored.ids[column]? = some unknownsId := by
  obtain ⟨hlast, hcount⟩ := (stored.unknownsColumn?_eq_some_iff column).1 h
  have hposition : column = stored.ids.length - 1 := by
    unfold columnCount at hcount
    omega
  rw [hposition, ← List.getLast?_eq_getElem?]
  exact hlast

/-- There is no column of all other fields exactly if the last entry is not `-1`. -/
theorem unknownsColumn?_eq_none_iff (stored : StoredFields) :
    stored.unknownsColumn? = none ↔ stored.ids.getLast? ≠ some unknownsId := by
  unfold unknownsColumn? hasUnknownsColumn
  simp

end StoredFields

namespace Plan

/-- The numbers among those asked for that the message type has, in the order asked for. -/
def requiredOf (s : Schema) (numbers : List Nat) : List Nat :=
  numbers.filter fun n => (s.fieldOfNumber? n).isSome

/-- The fields among those asked for that have no column, in the order asked for. -/
def missingOf (s : Schema) (numbers : List Nat) (stored : StoredFields) : List Field :=
  ((requiredOf s numbers).filter fun n => ¬stored.Holds n).filterMap s.fieldOfNumber?

/-- A number is required exactly if it is asked for and the message type has a field of it. -/
theorem mem_requiredOf {s : Schema} {numbers : List Nat} {n : Nat} :
    n ∈ requiredOf s numbers ↔ n ∈ numbers ∧ ∃ f, s.fieldOfNumber? n = some f := by
  simp [requiredOf, Option.isSome_iff_exists]

/-- The field of a required number, and that it has this number. -/
theorem exists_field_of_mem_requiredOf {s : Schema} {numbers : List Nat} {n : Nat}
    (h : n ∈ requiredOf s numbers) : ∃ f, s.fieldOfNumber? n = some f ∧ f.number = n := by
  obtain ⟨-, f, hf⟩ := mem_requiredOf.1 h
  exact ⟨f, hf, (FieldTable.find?_eq_some_iff.1 hf).2⟩

/-- The missing fields are those of the required numbers that no column holds. -/
theorem mem_missingOf {s : Schema} {numbers : List Nat} {stored : StoredFields} {f : Field} :
    f ∈ missingOf s numbers stored ↔
      f.number ∈ requiredOf s numbers ∧ ¬stored.Holds f.number ∧
        s.fieldOfNumber? f.number = some f := by
  simp only [missingOf, List.mem_filterMap, List.mem_filter, decide_eq_true_eq]
  constructor
  · rintro ⟨n, ⟨hn, hs⟩, hf⟩
    obtain rfl := (FieldTable.find?_eq_some_iff.1 hf).2
    exact ⟨hn, hs, hf⟩
  · rintro ⟨hn, hs, hf⟩
    exact ⟨f.number, ⟨hn, hs⟩, hf⟩

/-- There is a missing field exactly if some required number has no column. -/
theorem missingOf_ne_nil_iff {s : Schema} {numbers : List Nat} {stored : StoredFields} :
    missingOf s numbers stored ≠ [] ↔ ∃ n ∈ requiredOf s numbers, ¬stored.Holds n := by
  constructor
  · intro h
    obtain ⟨f, hf⟩ := List.exists_mem_of_ne_nil _ h
    obtain ⟨hn, hs, -⟩ := mem_missingOf.1 hf
    exact ⟨f.number, hn, hs⟩
  · rintro ⟨n, hn, hs⟩
    obtain ⟨f, hf, rfl⟩ := exists_field_of_mem_requiredOf hn
    exact List.ne_nil_of_mem (mem_missingOf.2 ⟨hn, hs, hf⟩)

/-- No field is missing exactly if no required number is without a column. -/
theorem missingOf_eq_nil_iff {s : Schema} {numbers : List Nat} {stored : StoredFields} :
    missingOf s numbers stored = [] ↔ ¬∃ n ∈ requiredOf s numbers, ¬stored.Holds n := by
  rw [← missingOf_ne_nil_iff, ne_eq, Classical.not_not]

/-- The columns that hold a required field, each with its field. -/
def knownOf (s : Schema) (numbers : List Nat) (stored : StoredFields) : List (Nat × Field) :=
  stored.known fun n => if n ∈ requiredOf s numbers then s.fieldOfNumber? n else none

/-- A known column is one whose entry is a required number, with the field of this number. -/
theorem mem_knownOf {s : Schema} {numbers : List Nat} {stored : StoredFields} {column : Nat}
    {f : Field} :
    (column, f) ∈ knownOf s numbers stored ↔
      f.number ∈ requiredOf s numbers ∧ s.fieldOfNumber? f.number = some f ∧
        ∃ id, stored.ids[column]? = some id ∧ id.toInt = f.number := by
  simp only [knownOf, stored.mem_known, Option.ite_none_right_eq_some]
  constructor
  · rintro ⟨id, hget, hid, hmem, hf⟩
    have hnum := (FieldTable.find?_eq_some_iff.1 hf).2
    rw [← hnum] at hmem hf
    exact ⟨hmem, hf, id, hget, by omega⟩
  · rintro ⟨hmem, hf, id, hget, hid⟩
    have hnum : id.toInt.toNat = f.number := by omega
    exact ⟨id, hget, by omega, hnum ▸ hmem, hnum ▸ hf⟩

/-- Planning, by whether fields are missing and whether there is a column to find them in. -/
theorem ofNumbers_eq (s : Schema) (numbers : List Nat) (stored : StoredFields) :
    ofNumbers s numbers stored =
      if missingOf s numbers stored = [] then
        .ok ⟨s, knownOf s numbers stored, none, [], requiredOf s numbers, stored.columnCount⟩
      else
        match stored.unknownsColumn? with
        | none =>
          .error (.missingUnknownsColumn ((missingOf s numbers stored).map (·.name)))
        | some column =>
          .ok ⟨s, knownOf s numbers stored, some column, missingOf s numbers stored,
            requiredOf s numbers, stored.columnCount⟩ := by
  -- The search by `contains` finds what `Holds` says.
  have hmissing : ((numbers.filter fun n => (s.fieldOfNumber? n).isSome).filter
      fun n => !stored.contains n).filterMap s.fieldOfNumber? = missingOf s numbers stored := by
    have hsearch : (fun n => !stored.contains n) = fun n => decide (¬stored.Holds n) := by
      funext n
      rw [Bool.eq_iff_iff, Bool.not_eq_true', ← Bool.not_eq_true, stored.contains_iff,
        decide_eq_true_eq]
    rw [hsearch]
    rfl
  unfold ofNumbers
  simp only [hmissing]
  by_cases h : missingOf s numbers stored = []
  · simp only [h, List.isEmpty_nil, if_true]
    rfl
  · have he : (missingOf s numbers stored).isEmpty = false := by simpa using h
    simp only [h, he, if_false]
    rfl

/-- A plan reads the known columns, and the file's column of all other fields if a field is
missing. -/
theorem eq_of_ofNumbers {s : Schema} {numbers : List Nat} {stored : StoredFields} {p : Plan}
    (h : ofNumbers s numbers stored = .ok p) :
    p = ⟨s, knownOf s numbers stored,
      if missingOf s numbers stored = [] then none else stored.unknownsColumn?,
      missingOf s numbers stored, requiredOf s numbers, stored.columnCount⟩ := by
  rw [ofNumbers_eq] at h
  split at h
  · rename_i hnil
    rw [if_pos hnil, hnil]
    exact (Except.ok.inj h).symm
  · rename_i hnil
    rw [if_neg hnil]
    split at h
    · cases h
    · rename_i column hcolumn
      rw [hcolumn]
      exact (Except.ok.inj h).symm

/-- The column of all other fields that a plan reads is that of the file. -/
theorem unknownsColumn?_of_ofNumbers {s : Schema} {numbers : List Nat} {stored : StoredFields}
    {p : Plan} (h : ofNumbers s numbers stored = .ok p) {column : Nat}
    (hcolumn : p.unknownsColumn = some column) : stored.unknownsColumn? = some column := by
  rw [eq_of_ofNumbers h] at hcolumn
  dsimp only at hcolumn
  split_ifs at hcolumn
  exact hcolumn

/-- The plan is the one that the stored entries and the required numbers determine. -/
structure IsExact (s : Schema) (numbers : List Nat) (stored : StoredFields) (p : Plan) : Prop where
  /-- The columns strictly ascend. -/
  ascending : p.columns.Pairwise (· < ·)
  /-- The columns are columns of the file. -/
  inRange : ∀ c ∈ p.columns, c < stored.columnCount
  /-- A column is read exactly if its entry is a required number, or it is the last one and a
  required number has no column. -/
  mem_columns : ∀ c, c ∈ p.columns ↔
    (∃ id, stored.ids[c]? = some id ∧ ∃ n ∈ requiredOf s numbers, id.toInt = n) ∨
      (c + 1 = stored.columnCount ∧ ∃ n ∈ requiredOf s numbers, ¬stored.Holds n)
  /-- A known field is the one whose number is the entry of the column at its place. -/
  knownFields_get : ∀ (i : Nat) (f : Field), p.knownFields[i]? = some f →
    ∃ (c : Nat) (id : Int32), p.columns[i]? = some c ∧ stored.ids[c]? = some id ∧
      id.toInt = f.number ∧ s.fieldOfNumber? f.number = some f
  /-- There is a column for each known field, and one more if that of all other fields is read. -/
  length_columns :
    p.columns.length = p.knownFields.length + if p.unknownsColumn.isSome then 1 else 0
  /-- The column of all other fields is read exactly if a required number has no column. -/
  readsUnknowns : p.unknownsColumn.isSome ↔ ∃ n ∈ requiredOf s numbers, ¬stored.Holds n
  /-- The column of all other fields is the last one. -/
  unknownsColumn_last : ∀ c, p.unknownsColumn = some c → c + 1 = stored.columnCount
  /-- A required number is that of a known field or of an unknown field, and not of both. -/
  known_xor_unknown : ∀ n ∈ requiredOf s numbers,
    ((∃ f ∈ p.knownFields, f.number = n) ∧ ¬∃ f ∈ p.unknownFields, f.number = n) ∨
      ((∃ f ∈ p.unknownFields, f.number = n) ∧ ¬∃ f ∈ p.knownFields, f.number = n)

/-- The known columns ascend. -/
theorem pairwise_knownOf (s : Schema) (numbers : List Nat) (stored : StoredFields) :
    ((knownOf s numbers stored).map Prod.fst).Pairwise (· < ·) :=
  (stored.pairwise_known _).map _ fun _ _ h => h

/-- A known column is a column of the file, and its entry is a required number. -/
theorem mem_map_fst_knownOf {s : Schema} {numbers : List Nat} {stored : StoredFields}
    {column : Nat} :
    column ∈ (knownOf s numbers stored).map Prod.fst ↔
      ∃ id, stored.ids[column]? = some id ∧ ∃ n ∈ requiredOf s numbers, id.toInt = n := by
  simp only [List.mem_map, Prod.exists, exists_and_right, exists_eq_right, mem_knownOf]
  constructor
  · rintro ⟨f, hmem, -, id, hget, hid⟩
    exact ⟨id, hget, f.number, hmem, hid⟩
  · rintro ⟨id, hget, n, hn, hid⟩
    obtain ⟨f, hf, rfl⟩ := exists_field_of_mem_requiredOf hn
    exact ⟨f, hn, hf, id, hget, hid⟩

/-- A required number is that of a known field exactly if a column holds it. -/
theorem exists_knownOf_iff {s : Schema} {numbers : List Nat} {stored : StoredFields} {n : Nat}
    (hn : n ∈ requiredOf s numbers) :
    (∃ f ∈ (knownOf s numbers stored).map Prod.snd, f.number = n) ↔ stored.Holds n := by
  simp only [List.mem_map, Prod.exists, exists_eq_right, mem_knownOf]
  constructor
  · rintro ⟨f, ⟨column, -, -, id, hget, hid⟩, rfl⟩
    exact ⟨id, List.mem_of_getElem? hget, hid⟩
  · rintro ⟨id, hmem, hid⟩
    obtain ⟨column, hget⟩ := List.mem_iff_getElem?.1 hmem
    obtain ⟨f, hf, rfl⟩ := exists_field_of_mem_requiredOf hn
    exact ⟨f, ⟨column, hn, hf, id, hget, hid⟩, rfl⟩

/-- A required number is that of a missing field exactly if no column holds it. -/
theorem exists_missingOf_iff {s : Schema} {numbers : List Nat} {stored : StoredFields} {n : Nat}
    (hn : n ∈ requiredOf s numbers) :
    (∃ f ∈ missingOf s numbers stored, f.number = n) ↔ ¬stored.Holds n := by
  constructor
  · rintro ⟨f, hf, rfl⟩
    exact (mem_missingOf.1 hf).2.1
  · intro hs
    obtain ⟨f, hf, rfl⟩ := exists_field_of_mem_requiredOf hn
    exact ⟨f, mem_missingOf.2 ⟨hn, hs, hf⟩, rfl⟩

/-- A known column stands before the column of all other fields, whose entry is `-1`. -/
theorem lt_unknownsColumn {s : Schema} {numbers : List Nat} {stored : StoredFields} {c last : Nat}
    (hc : c ∈ (knownOf s numbers stored).map Prod.fst)
    (hlast : stored.unknownsColumn? = some last) : c < last := by
  obtain ⟨-, hcount⟩ := (stored.unknownsColumn?_eq_some_iff last).1 hlast
  obtain ⟨id, hget, n, -, hn⟩ := mem_map_fst_knownOf.1 hc
  have hlt : c < stored.ids.length := (List.getElem?_eq_some_iff.1 hget).1
  -- The entry of a known column is a number and so not `-1`, which is the last entry.
  have hne : c ≠ last := by
    rintro rfl
    have hminus := StoredFields.getElem?_of_unknownsColumn? hlast
    rw [hget, Option.some.injEq] at hminus
    rw [hminus] at hn
    have hvalue : StoredFields.unknownsId.toInt = -1 := rfl
    omega
  unfold StoredFields.columnCount at hcount
  omega

/-- A plan of the known columns is exact if it reads the column of all other fields just when a
field is missing. -/
theorem isExact_of_unknownsColumn (s : Schema) (numbers : List Nat) (stored : StoredFields)
    (unknowns : Option Nat)
    (hread : unknowns.isSome ↔ ∃ n ∈ requiredOf s numbers, ¬stored.Holds n)
    (hlast : ∀ c, unknowns = some c → stored.unknownsColumn? = some c) :
    IsExact s numbers stored ⟨s, knownOf s numbers stored, unknowns, missingOf s numbers stored,
      requiredOf s numbers, stored.columnCount⟩ := by
  have hcount : ∀ c, unknowns = some c → c + 1 = stored.columnCount := fun c hc =>
    ((stored.unknownsColumn?_eq_some_iff c).1 (hlast c hc)).2
  constructor
  case ascending =>
    refine List.pairwise_append.2 ⟨pairwise_knownOf s numbers stored, ?_, ?_⟩
    · cases unknowns <;> simp
    · intro c hc last hm
      exact lt_unknownsColumn hc (hlast last (Option.mem_toList.1 hm))
  case inRange =>
    intro c hc
    rcases List.mem_append.1 hc with hc | hc
    · obtain ⟨id, hget, -⟩ := mem_map_fst_knownOf.1 hc
      exact (List.getElem?_eq_some_iff.1 hget).1
    · have hlastcount := hcount c (Option.mem_toList.1 hc)
      omega
  case mem_columns =>
    intro c
    -- There is one last column only, so reading some column of all other fields is reading it.
    have hunknowns : unknowns = some c ↔ c + 1 = stored.columnCount ∧ unknowns.isSome := by
      constructor
      · intro hc
        exact ⟨hcount c hc, by rw [hc]; rfl⟩
      · rintro ⟨hc, hsome⟩
        obtain ⟨last, hl⟩ := Option.isSome_iff_exists.1 hsome
        have hlastcount := hcount last hl
        have hsame : last = c := by omega
        rw [hl, hsame]
    unfold columns
    rw [List.mem_append, mem_map_fst_knownOf, ← hread, Option.mem_toList]
    exact or_congr_right hunknowns
  case knownFields_get =>
    -- The columns begin with those of the known fields, so the same place gives both.
    intro i f hf
    simp only [knownFields, List.getElem?_map, Option.map_eq_some_iff, Prod.exists,
      exists_eq_right] at hf
    obtain ⟨c, hget⟩ := hf
    obtain ⟨-, hfield, id, hid, hnum⟩ := mem_knownOf.1 (List.mem_of_getElem? hget)
    refine ⟨c, id, ?_, hid, hnum, hfield⟩
    have hlt : i < ((knownOf s numbers stored).map Prod.fst).length := by
      simpa using (List.getElem?_eq_some_iff.1 hget).1
    rw [columns, List.getElem?_append_left hlt, List.getElem?_map, hget]
    rfl
  case length_columns =>
    cases unknowns <;> simp [columns, knownFields]
  case readsUnknowns => exact hread
  case unknownsColumn_last => exact hcount
  case known_xor_unknown =>
    intro n hn
    simp only [knownFields, exists_knownOf_iff hn, exists_missingOf_iff hn]
    by_cases hs : stored.Holds n <;> simp [hs]

/-- A plan is exact. -/
theorem isExact_of_ofNumbers {s : Schema} {numbers : List Nat} {stored : StoredFields} {p : Plan}
    (h : ofNumbers s numbers stored = .ok p) : p.IsExact s numbers stored := by
  rw [ofNumbers_eq] at h
  split at h
  · rename_i hnil
    obtain rfl := Except.ok.inj h
    have hexact := isExact_of_unknownsColumn s numbers stored none
      (by simpa using missingOf_eq_nil_iff.1 hnil) (by simp)
    rw [hnil] at hexact
    exact hexact
  · rename_i hnil
    split at h
    · cases h
    · rename_i column hcolumn
      obtain rfl := Except.ok.inj h
      refine isExact_of_unknownsColumn s numbers stored (some column) ?_ ?_
      · simpa using missingOf_ne_nil_iff.1 hnil
      · exact fun c hc => hcolumn.trans hc

/-- What is read of a file: the columns, the fields with a column of their own, and whether the
column of all other fields is among the columns. -/
def layout (p : Plan) : List Nat × List Field × Bool :=
  (p.columns, p.knownFields, p.unknownsColumn.isSome)

/-- Planning fails or reads the same for two lists of numbers of which the same are required. -/
theorem layout_ofNumbers_congr {s : Schema} {numbers others : List Nat} {stored : StoredFields}
    (h : ∀ n, n ∈ requiredOf s numbers ↔ n ∈ requiredOf s others) :
    (ofNumbers s numbers stored).toOption.map layout =
      (ofNumbers s others stored).toOption.map layout := by
  have hknown : knownOf s numbers stored = knownOf s others stored :=
    stored.known_congr fun n => by simp only [h n]
  have hmissing : missingOf s numbers stored = [] ↔ missingOf s others stored = [] := by
    rw [missingOf_eq_nil_iff, missingOf_eq_nil_iff]
    simp only [h]
  rw [ofNumbers_eq, ofNumbers_eq, hknown]
  by_cases hnil : missingOf s others stored = []
  · rw [if_pos hnil, if_pos (hmissing.2 hnil)]
    rfl
  · rw [if_neg hnil, if_neg (mt hmissing.1 hnil)]
    cases stored.unknownsColumn? <;> rfl

/-- Planning gives the exact plan, or fails because a required number has no column and the last
entry is not `-1`, naming the fields of just these numbers in the order asked for. What is read
depends on the set of required numbers alone. -/
theorem ofNumbers_exact (s : Schema) (numbers : List Nat) (stored : StoredFields) :
    (match ofNumbers s numbers stored with
      | .error e =>
        (∃ n ∈ requiredOf s numbers, ¬stored.Holds n) ∧
          stored.ids.getLast? ≠ some StoredFields.unknownsId ∧
          e = .missingUnknownsColumn ((missingOf s numbers stored).map (·.name))
      | .ok p =>
        ¬((∃ n ∈ requiredOf s numbers, ¬stored.Holds n) ∧
            stored.ids.getLast? ≠ some StoredFields.unknownsId) ∧
          p.IsExact s numbers stored) ∧
      ∀ others, (∀ n, n ∈ requiredOf s numbers ↔ n ∈ requiredOf s others) →
        (ofNumbers s numbers stored).toOption.map layout =
          (ofNumbers s others stored).toOption.map layout := by
  refine ⟨?_, fun others h => layout_ofNumbers_congr h⟩
  rw [ofNumbers_eq]
  by_cases hnil : missingOf s numbers stored = []
  · -- No field is missing, so the column of all other fields is not read.
    have hnone := missingOf_eq_nil_iff.1 hnil
    have hexact := isExact_of_unknownsColumn s numbers stored none (by simpa using hnone) (by simp)
    rw [hnil] at hexact
    rw [if_pos hnil]
    exact ⟨fun hfail => hnone hfail.1, hexact⟩
  · -- A field is missing, which is an error unless the last column is that of all other fields.
    have hsome := missingOf_ne_nil_iff.1 hnil
    rw [if_neg hnil]
    cases hlast : stored.unknownsColumn? with
    | none => exact ⟨hsome, (stored.unknownsColumn?_eq_none_iff).1 hlast, rfl⟩
    | some column =>
      refine ⟨fun hfail => hfail.2 ((stored.unknownsColumn?_eq_some_iff column).1 hlast).1, ?_⟩
      refine isExact_of_unknownsColumn s numbers stored (some column) (by simpa using hsome) ?_
      intro c hc
      rw [← hc, hlast]

/-- Asking for a field twice, or for one that the message type has not, changes nothing. -/
theorem layout_ofNumbers_regular :
    (∀ n, n ∈ requiredOf Sample.regular [3, 1] ↔ n ∈ requiredOf Sample.regular [1, 3, 1, 9]) ∧
      (ofNumbers Sample.regular [3, 1] ⟨[3, -1]⟩).toOption.map layout =
        (ofNumbers Sample.regular [1, 3, 1, 9] ⟨[3, -1]⟩).toOption.map layout := by
  have hsame : ∀ n, n ∈ requiredOf Sample.regular [3, 1] ↔
      n ∈ requiredOf Sample.regular [1, 3, 1, 9] := by
    intro n
    show n ∈ [3, 1] ↔ n ∈ [1, 3, 1]
    simp only [List.mem_cons, List.not_mem_nil]
    grind
  exact ⟨hsame, (ofNumbers_exact Sample.regular [3, 1] ⟨[3, -1]⟩).2 [1, 3, 1, 9] hsame⟩

end Plan

end ColumnarRecords

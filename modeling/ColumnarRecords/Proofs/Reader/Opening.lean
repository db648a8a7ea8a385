import ColumnarRecords.Proofs.Projection.Exact
import ColumnarRecords.Proofs.Reader.Draining
import ColumnarRecords.Proofs.Source.Delivery

/-!
# What opening a reader checks

Opening a reader on rows in memory goes through checks: of the indices that are asked for, of the
metadata, of the plan, and of what was done with the source before. `Check.all` lists them in their
order, each with the error that it fails with, and `Reader.ofSource_exact` shows that opening gives
the error of the first check that fails and a reader if none does, for every source that can be come
by (`MemorySource.Reached`). What has to hold for a reader to be opened is also said without an
order (`Reader.Openable`).

The source checks the columns that are selected once more, and no plan fails this check, as the
columns of a plan are in range and ascend (`Plan.checkSelection_columns`). -/

namespace ColumnarRecords

open Descriptor ColumnSource

namespace MemorySource

/-- The sources that can be come by, and whether an earlier call was an advance: a new source, one
with a further entry of the metadata, and one after any use, be it granted or refused. -/
inductive Reached : Bool → MemorySource → Prop where
  /-- A new source. -/
  | ofWidth (columnCount : Nat) : Reached false (ofWidth columnCount)
  /-- A source with a further entry of the metadata. -/
  | addMetadata (key : String) (value : List UInt8) {advanced : Bool} {t : MemorySource}
    (h : Reached advanced t) : Reached advanced (t.addMetadata key value)
  /-- A source after a use. -/
  | use (u : Use) {advanced : Bool} {t : MemorySource} (h : Reached advanced t) :
    Reached (advanced || decide (u = .call .advance)) (t.use u)

/-- A use starts a source if it is an advance, and otherwise leaves it started or not. -/
theorem started_use (t : MemorySource) (u : Use) :
    (t.use u).started = (t.started || decide (u = .call .advance)) := by
  match u with
  | .push row =>
    rw [use_push]
    split <;> simp
  | .call .columnCount => exact (Bool.or_false _).symm
  | .call .current => exact (Bool.or_false _).symm
  | .call (.selectColumns columns) =>
    obtain ⟨selected, hselected⟩ := t.eq_use_selectColumns columns
    rw [hselected]
    exact (Bool.or_false _).symm
  | .call .advance =>
    have hstarted : (t.use (.call .advance)).started = true := by
      show t.advance.2.started = true
      rcases Nat.lt_or_ge t.nextPosition t.rows.length with hmore | hmore
      · rw [advance_of_lt hmore]
      · rw [advance_of_le hmore]
    rw [hstarted]
    exact (Bool.or_true _).symm

/-- A source has started exactly if an earlier call was an advance. -/
theorem Reached.started_eq {advanced : Bool} {t : MemorySource} (h : Reached advanced t) :
    t.started = advanced := by
  induction h with
  | ofWidth columnCount => rfl
  | addMetadata key value h ih => exact ih
  | use u h ih => rw [started_use, ih]

end MemorySource

namespace Selection

/-- The first index of a selection that is beyond the fields of a schema. -/
def outOfRange? (s : Schema) : Selection → Option UInt64
  | all => none
  | indices list => list.find? (s.fieldCount ≤ ·.toNat)

/-- The numbers of the fields that a selection names, each once. -/
def numbers (s : Schema) : Selection → List Nat
  | all => s.fields.map (·.number)
  | indices list =>
    (list.filterMap fun index => (s.field? index.toNat).map (·.number)).eraseDups

/-- The numbers at indices, or the error of the first index that is out of range. -/
theorem mapM_numberAt (s : Schema) (list : List UInt64) :
    list.mapM (numberAt s) =
      match list.find? (s.fieldCount ≤ ·.toNat) with
      | some index => .error (.indexOutOfRange index.toNat s.fieldCount s.fullName)
      | none => .ok (list.filterMap fun index => (s.field? index.toNat).map (·.number)) := by
  induction list with
  | nil => rfl
  | cons index rest ih =>
    rw [List.mapM_cons, ih]
    by_cases hrange : s.fieldCount ≤ index.toNat
    · have hnone : s.field? index.toNat = none := List.getElem?_eq_none hrange
      rw [List.find?_cons_of_pos (by simpa using hrange), numberAt, hnone]
      rfl
    · have hlt : index.toNat < s.fields.length := Nat.lt_of_not_le hrange
      have hfield : s.field? index.toNat = some s.fields[index.toNat] :=
        List.getElem?_eq_getElem hlt
      rw [List.find?_cons_of_neg (by simpa using hrange), numberAt, hfield]
      cases hfind : rest.find? (s.fieldCount ≤ ·.toNat) with
      | none => simp [hfield]; rfl
      | some other => rfl

/-- A selection is resolved to its numbers, unless an index is out of range. -/
theorem resolve_eq (s : Schema) (selection : Selection) :
    selection.resolve s =
      match selection.outOfRange? s with
      | some index => .error (.indexOutOfRange index.toNat s.fieldCount s.fullName)
      | none => .ok (selection.numbers s) := by
  cases selection with
  | all => rfl
  | indices list =>
    simp only [resolve, outOfRange?, numbers, mapM_numberAt]
    cases list.find? (s.fieldCount ≤ ·.toNat) <;> rfl

/-- The numbers that a selection names are numbers of fields. -/
theorem fieldOfNumber?_of_mem_numbers {s : Schema} {selection : Selection} {n : Nat}
    (h : n ∈ selection.numbers s) : ∃ f, s.fieldOfNumber? n = some f := by
  have hfield : ∀ f ∈ s.fields, s.fieldOfNumber? f.number = some f := fun f hf =>
    FieldTable.find?_eq_some_iff.2 ⟨hf, rfl⟩
  cases selection with
  | all =>
    obtain ⟨f, hf, rfl⟩ := List.mem_map.1 h
    exact ⟨f, hfield f hf⟩
  | indices list =>
    obtain ⟨index, -, hindex⟩ := List.mem_filterMap.1 (List.mem_eraseDups.1 h)
    obtain ⟨f, hf, rfl⟩ := Option.map_eq_some_iff.1 hindex
    exact ⟨f, hfield f (List.mem_of_getElem? hf)⟩

/-- All numbers that a selection names are required. -/
theorem mem_requiredOf_numbers {s : Schema} {selection : Selection} {n : Nat} :
    n ∈ Plan.requiredOf s (selection.numbers s) ↔ n ∈ selection.numbers s := by
  rw [Plan.mem_requiredOf]
  exact ⟨And.left, fun h => ⟨h, fieldOfNumber?_of_mem_numbers h⟩⟩

end Selection

/-- Positions that are in order throughout ascend. -/
theorem ColumnSource.isAscending_of_pairwise {columns : List Nat}
    (h : columns.Pairwise (· < ·)) : isAscending columns = true := by
  induction columns with
  | nil => rfl
  | cons a rest ih =>
    obtain ⟨hhead, htail⟩ := List.pairwise_cons.1 h
    cases rest with
    | nil => rfl
    | cons b rest =>
      have hlt : a < b := hhead b List.mem_cons_self
      rw [isAscending, ih htail, decide_eq_true hlt]
      rfl

namespace Plan

/-- The columns of a plan pass the check of a source that has as many columns as are stored. -/
theorem checkSelection_columns {s : Schema} {numbers : List Nat} {stored : StoredFields} {p : Plan}
    (h : ofNumbers s numbers stored = .ok p) :
    checkSelection p.columns stored.columnCount = .ok () := by
  have hexact := isExact_of_ofNumbers h
  exact checkSelection_eq_ok_iff.2 ⟨hexact.inRange, isAscending_of_pairwise hexact.ascending⟩

/-- A plan is made if no field is missing or the last entry is that of all other fields. -/
theorem exists_ofNumbers {s : Schema} {numbers : List Nat} {stored : StoredFields}
    (h : missingOf s numbers stored = [] ∨ stored.ids.getLast? = some StoredFields.unknownsId) :
    ∃ p, ofNumbers s numbers stored = .ok p := by
  rw [ofNumbers_eq]
  by_cases hnil : missingOf s numbers stored = []
  · exact ⟨_, if_pos hnil⟩
  · rw [if_neg hnil]
    cases hcolumn : stored.unknownsColumn? with
    | none => exact absurd (h.resolve_left hnil) (stored.unknownsColumn?_eq_none_iff.1 hcolumn)
    | some column => exact ⟨_, rfl⟩

/-- No plan is made if fields are missing and the last entry is another one. -/
theorem ofNumbers_eq_error {s : Schema} {numbers : List Nat} {stored : StoredFields}
    (h : ¬(missingOf s numbers stored = [] ∨
      stored.ids.getLast? = some StoredFields.unknownsId)) :
    ofNumbers s numbers stored =
      .error (.missingUnknownsColumn ((missingOf s numbers stored).map (·.name))) := by
  obtain ⟨hmissing, hlast⟩ := not_or.1 h
  rw [ofNumbers_eq, if_neg hmissing, stored.unknownsColumn?_eq_none_iff.2 hlast]

end Plan

namespace Reader

/-- What has to hold for a reader to be opened on rows in memory. -/
structure Openable (s : Schema) (selection : Selection) (t : MemorySource) (advanced : Bool) :
    Prop where
  /-- There is a field at every index. -/
  indices : ∀ list, selection = .indices list → ∀ index ∈ list, index.toNat < s.fieldCount
  /-- The metadata has an entry on the columns, which can be read, names as many columns as there
  are, and has each field that is asked for or ends with the entry of all other fields. -/
  stored : ∃ bytes m, t.metadata? Metadata.key = some bytes ∧ Metadata.parse bytes = .ok m ∧
    m.fieldIds.length = t.columnCount ∧ ∀ n ∈ selection.numbers s,
      (∃ id ∈ m.fieldIds, id.toInt = n) ∨ m.fieldIds.getLast? = some (-1)
  /-- No record has been asked for. -/
  fresh : advanced = false

/-- What is checked when a reader is opened. -/
inductive Check where
  /-- There is a field at every index. -/
  | indices
  /-- The metadata has an entry on the columns. -/
  | entry
  /-- The entry can be read. -/
  | form
  /-- The entry is about as many columns as there are. -/
  | count
  /-- The fields that have no column can be found in the column of all other fields. -/
  | fallback
  /-- No record has been asked for. -/
  | beginning

namespace Check

/-- The checks in their order. -/
def all : List Check := [indices, entry, form, count, fallback, beginning]

/-- What the entry of the metadata says, if there is one and it can be read. -/
def metadata? (t : MemorySource) : Option Metadata :=
  (t.metadata? Metadata.key).bind fun bytes => (Metadata.parse bytes).toOption

/-- The error of a check, if it fails. A check of the metadata's content fails only where there is
some. -/
def error? (s : Schema) (selection : Selection) (t : MemorySource) (advanced : Bool) :
    Check → Option ReadError
  | indices => (selection.outOfRange? s).map fun index =>
      .indexOutOfRange index.toNat s.fieldCount s.fullName
  | entry => if t.metadata? Metadata.key = none then some .missingMetadata else none
  | form => (t.metadata? Metadata.key).bind fun bytes =>
      match Metadata.parse bytes with
      | .error fault => some (.invalidMetadata fault)
      | .ok _ => none
  | count => (metadata? t).bind fun m =>
      if m.fieldIds.length = t.columnCount then none
      else some (.columnCountMismatch m.fieldIds.length t.columnCount)
  | fallback => (metadata? t).bind fun m =>
      let missing := Plan.missingOf s (selection.numbers s) ⟨m.fieldIds⟩
      if missing = [] ∨ m.fieldIds.getLast? = some (-1) then none
      else some (.missingUnknownsColumn (missing.map (·.name)))
  | beginning => if advanced then some (.invalidState .alreadyStarted) else none

variable {s : Schema} {selection : Selection} {t : MemorySource} {advanced : Bool}

/-- No check fails with a wrong selection of columns. -/
theorem error?_ne_invalidSelection {c : Check} (fault : SelectionFault) :
    c.error? s selection t advanced ≠ some (.invalidSelection fault) := by
  intro h
  cases c with
  | indices =>
    obtain ⟨index, -, he⟩ := Option.map_eq_some_iff.1 h
    cases he
  | entry =>
    simp only [error?] at h
    split at h <;> cases h
  | form =>
    obtain ⟨bytes, -, he⟩ := Option.bind_eq_some_iff.1 h
    split at he <;> cases he
  | count =>
    obtain ⟨m, -, he⟩ := Option.bind_eq_some_iff.1 h
    split at he <;> cases he
  | fallback =>
    obtain ⟨m, -, he⟩ := Option.bind_eq_some_iff.1 h
    simp only at he
    split at he <;> cases he
  | beginning =>
    simp only [error?] at h
    split at h <;> cases h

/-- The first error of the checks in their order. -/
theorem findSome?_all (f : Check → Option ReadError) :
    all.findSome? f =
      (f indices).or
        ((f entry).or ((f form).or ((f count).or ((f fallback).or (f beginning))))) := by
  simp only [all, List.findSome?_cons, List.findSome?_nil]
  cases f indices <;> cases f entry <;> cases f form <;> cases f count <;> cases f fallback <;>
    cases f beginning <;> rfl

/-- The check of the indices passes exactly if there is a field at each of them. -/
theorem error?_indices_eq_none_iff :
    error? s selection t advanced indices = none ↔
      ∀ list, selection = .indices list → ∀ index ∈ list, index.toNat < s.fieldCount := by
  simp only [error?, Option.map_eq_none_iff]
  cases selection with
  | all =>
    refine ⟨fun _ list h => ?_, fun _ => rfl⟩
    cases h
  | indices list =>
    simp only [Selection.outOfRange?, List.find?_eq_none, decide_eq_true_eq, Nat.not_le]
    constructor
    · intro h list' heq
      obtain rfl := Selection.indices.inj heq
      exact h
    · exact fun h => h list rfl

/-- The check of the fields without a column passes exactly if each field that is asked for has one,
or the last column is that of all other fields. -/
theorem error?_fallback_eq_none_iff {m : Metadata} (h : metadata? t = some m) :
    error? s selection t advanced fallback = none ↔
      ∀ n ∈ selection.numbers s,
        (∃ id ∈ m.fieldIds, id.toInt = n) ∨ m.fieldIds.getLast? = some (-1) := by
  have hmissing : Plan.missingOf s (selection.numbers s) ⟨m.fieldIds⟩ = [] ↔
      ∀ n ∈ selection.numbers s, ∃ id ∈ m.fieldIds, id.toInt = n := by
    rw [Plan.missingOf_eq_nil_iff]
    simp only [Selection.mem_requiredOf_numbers, not_exists, not_and, Classical.not_not]
    rfl
  simp only [error?, h, Option.bind_some, ite_eq_left_iff, reduceCtorEq, imp_false,
    Classical.not_not, hmissing]
  by_cases hlast : m.fieldIds.getLast? = some (-1)
  · simp only [hlast, or_true, implies_true]
  · simp only [hlast, or_false]

/-- No check fails exactly if a reader can be opened. -/
theorem findSome?_eq_none_iff :
    all.findSome? (error? s selection t advanced) = none ↔
      Openable s selection t advanced := by
  simp only [findSome?_all, Option.or_eq_none_iff]
  constructor
  · rintro ⟨hindices, hentry, hform, hcount, hfallback, hbeginning⟩
    obtain ⟨bytes, hbytes⟩ : ∃ bytes, t.metadata? Metadata.key = some bytes := by
      refine Option.ne_none_iff_exists'.1 fun hnone => ?_
      simp only [error?, if_pos hnone, reduceCtorEq] at hentry
    obtain ⟨m, hparse⟩ : ∃ m, Metadata.parse bytes = .ok m := by
      simp only [error?, hbytes, Option.bind_some] at hform
      cases hparse : Metadata.parse bytes with
      | error fault =>
        rw [hparse] at hform
        cases hform
      | ok m => exact ⟨m, rfl⟩
    have hmetadata : metadata? t = some m := by
      simp only [metadata?, hbytes, hparse, Option.bind_some]
      rfl
    have hwidth : m.fieldIds.length = t.columnCount := by
      simpa [error?, hmetadata] using hcount
    have hcovered := (error?_fallback_eq_none_iff hmetadata).1 hfallback
    have hfresh : advanced = false := by simpa [error?] using hbeginning
    exact ⟨error?_indices_eq_none_iff.1 hindices, ⟨bytes, m, hbytes, hparse, hwidth, hcovered⟩,
      hfresh⟩
  · rintro ⟨hindices, ⟨bytes, m, hbytes, hparse, hwidth, hcovered⟩, rfl⟩
    have hmetadata : metadata? t = some m := by
      simp only [metadata?, hbytes, hparse, Option.bind_some]
      rfl
    refine ⟨error?_indices_eq_none_iff.2 hindices, ?_, ?_, ?_, ?_, rfl⟩
    · simp only [error?, hbytes, reduceCtorEq, if_false]
    · simp only [error?, hbytes, hparse, Option.bind_some]
    · simp only [error?, hmetadata, Option.bind_some, if_pos hwidth]
    · exact (error?_fallback_eq_none_iff hmetadata).2 hcovered

end Check

/-- The stored fields are those that the metadata says, unless a check of it fails. -/
theorem stored_of_checks (s : Schema) (selection : Selection) (t : MemorySource)
    (advanced : Bool) :
    match (Check.error? s selection t advanced .entry).or
        (Check.error? s selection t advanced .form) with
    | some e => StoredFields.ofSource t = .error e
    | none => ∃ m, Check.metadata? t = some m ∧ StoredFields.ofSource t = .ok ⟨m.fieldIds⟩ := by
  unfold StoredFields.ofSource
  cases hentry : t.metadata? Metadata.key with
  | none =>
    rw [show ColumnSource.metadata? t Metadata.key = none from hentry]
    simp only [Check.error?, hentry, if_true, Option.some_or]
  | some bytes =>
    rw [show ColumnSource.metadata? t Metadata.key = some bytes from hentry]
    simp only [Check.error?, hentry, reduceCtorEq, if_false, Option.none_or, Option.bind_some]
    cases hparse : Metadata.parse bytes with
    | error fault => rfl
    | ok m =>
      refine ⟨m, ?_, rfl⟩
      simp only [Check.metadata?, hentry, hparse, Option.bind_some]
      rfl

/-- The columns of a plan are selected, unless a record has been asked for. -/
theorem selectColumns_of_plan {t : MemorySource} {advanced : Bool} (ht : t.Reached advanced)
    {s : Schema} {numbers : List Nat} {stored : StoredFields} {p : Plan}
    (hp : Plan.ofNumbers s numbers stored = .ok p) (hwidth : stored.columnCount = t.columnCount) :
    t.selectColumns p.columns =
      if advanced then (.error (.invalidState .alreadyStarted), t)
      else (.ok (), { t with selected := some p.columns }) := by
  cases advanced with
  | true => exact MemorySource.selectColumns_of_started ht.started_eq p.columns
  | false =>
    have hcheck : checkSelection p.columns t.columnCount = .ok () :=
      hwidth ▸ Plan.checkSelection_columns hp
    rw [MemorySource.selectColumns_of_not_started ht.started_eq, hcheck]
    rfl

/-- Opening a reader for numbers, once the stored fields are known. -/
theorem openNumbers_of_stored {t : MemorySource} {advanced : Bool} (ht : t.Reached advanced)
    {stored : StoredFields} (hstored : StoredFields.ofSource t = .ok stored) (s : Schema)
    (numbers : List Nat) :
    openNumbers t s numbers =
      if stored.columnCount = t.columnCount then
        match Plan.ofNumbers s numbers stored with
        | .error e => .error e
        | .ok p =>
          if advanced then .error (.invalidState .alreadyStarted)
          else .ok ⟨{ t with selected := some p.columns }, p, .planned, none, 0⟩
      else .error (.columnCountMismatch stored.columnCount t.columnCount) := by
  simp only [openNumbers, hstored]
  show (if stored.columnCount = t.columnCount then _ else _) = _
  by_cases hwidth : stored.columnCount = t.columnCount
  · rw [if_pos hwidth, if_pos hwidth]
    cases hp : Plan.ofNumbers s numbers stored with
    | error e => rfl
    | ok p =>
      have hselect : ColumnSource.selectColumns p.columns t = _ :=
        selectColumns_of_plan ht hp hwidth
      simp only [hselect]
      cases advanced <;> rfl
  · rw [if_neg hwidth, if_neg hwidth]
    rfl

/-- With metadata a reader for the selected fields is opened, unless one of the other checks
fails. -/
theorem openNumbers_of_checks {t : MemorySource} {advanced : Bool} (ht : t.Reached advanced)
    (s : Schema) (selection : Selection) {m : Metadata} (hmetadata : Check.metadata? t = some m)
    (hstored : StoredFields.ofSource t = .ok ⟨m.fieldIds⟩) :
    match (Check.error? s selection t advanced .count).or
        ((Check.error? s selection t advanced .fallback).or
          (Check.error? s selection t advanced .beginning)) with
    | some e => openNumbers t s (selection.numbers s) = .error e
    | none => ∃ p, Plan.ofNumbers s (selection.numbers s) ⟨m.fieldIds⟩ = .ok p ∧
        openNumbers t s (selection.numbers s) =
          .ok ⟨{ t with selected := some p.columns }, p, .planned, none, 0⟩ := by
  rw [openNumbers_of_stored ht hstored]
  simp only [Check.error?, hmetadata, Option.bind_some]
  by_cases hwidth : (⟨m.fieldIds⟩ : StoredFields).columnCount = t.columnCount
  · rw [if_pos hwidth, if_pos (show m.fieldIds.length = t.columnCount from hwidth), Option.none_or]
    by_cases hcovered : Plan.missingOf s (selection.numbers s) ⟨m.fieldIds⟩ = [] ∨
        m.fieldIds.getLast? = some (-1)
    · obtain ⟨p, hp⟩ := Plan.exists_ofNumbers hcovered
      rw [if_pos hcovered, Option.none_or, hp]
      cases advanced with
      | true => rfl
      | false => exact ⟨p, rfl, rfl⟩
    · rw [if_neg hcovered, Option.some_or, Plan.ofNumbers_eq_error hcovered]
  · rw [if_neg hwidth, if_neg (show ¬m.fieldIds.length = t.columnCount from hwidth), Option.some_or]
    rfl

/-- Opening a reader gives the error of the first check that fails, or a reader. -/
theorem ofSource_of_checks {t : MemorySource} {advanced : Bool} (ht : t.Reached advanced)
    (s : Schema) (selection : Selection) :
    match Check.all.findSome? (Check.error? s selection t advanced) with
    | some e => ofSource t s selection = .error e
    | none => ∃ m p, Check.metadata? t = some m ∧
        Plan.ofNumbers s (selection.numbers s) ⟨m.fieldIds⟩ = .ok p ∧
        ofSource t s selection =
          .ok ⟨{ t with selected := some p.columns }, p, .planned, none, 0⟩ := by
  rw [Check.findSome?_all, ofSource, Selection.resolve_eq]
  -- The checks fall into three: those of the indices, of the metadata, and of what it says.
  cases hrange : selection.outOfRange? s with
  | some index => simp only [Check.error?, hrange, Option.map_some, Option.some_or]
  | none =>
    have hindices : Check.error? s selection t advanced .indices = none := by
      simp only [Check.error?, hrange, Option.map_none]
    rw [hindices, Option.none_or, ← Option.or_assoc]
    have hstored := stored_of_checks s selection t advanced
    cases hcontent : (Check.error? s selection t advanced .entry).or
        (Check.error? s selection t advanced .form) with
    | some e =>
      rw [hcontent] at hstored
      simp only [Option.some_or, openNumbers, hstored]
    | none =>
      rw [hcontent] at hstored
      obtain ⟨m, hmetadata, hfields⟩ := hstored
      have hopen := openNumbers_of_checks ht s selection hmetadata hfields
      rw [Option.none_or]
      split at hopen
      · exact hopen
      · obtain ⟨p, hp, hok⟩ := hopen
        exact ⟨m, p, hmetadata, hp, hok⟩

/-- Opening a reader on rows in memory succeeds exactly if what has to hold does, and otherwise
gives the error of the first check that fails, which is never that of a wrong selection of columns.
The reader has restricted the source to the columns of the plan for the selected fields, and has
fetched nothing. -/
theorem ofSource_exact {t : MemorySource} {advanced : Bool} (ht : t.Reached advanced) (s : Schema)
    (selection : Selection) :
    ((∃ r, ofSource t s selection = .ok r) ↔ Openable s selection t advanced) ∧
      (match Check.all.findSome? (Check.error? s selection t advanced) with
        | some e => ofSource t s selection = .error e
        | none => ∃ m p, Check.metadata? t = some m ∧
            Plan.ofNumbers s (selection.numbers s) ⟨m.fieldIds⟩ = .ok p ∧
            ofSource t s selection =
              .ok ⟨{ t with selected := some p.columns }, p, .planned, none, 0⟩) ∧
      ∀ fault, ofSource t s selection ≠ .error (.invalidSelection fault) := by
  have hchecks := ofSource_of_checks ht s selection
  refine ⟨?_, hchecks, ?_⟩
  · rw [← Check.findSome?_eq_none_iff]
    cases hfirst : Check.all.findSome? (Check.error? s selection t advanced) with
    | some e =>
      rw [hfirst] at hchecks
      simp only [hchecks, reduceCtorEq, exists_false]
    | none =>
      rw [hfirst] at hchecks
      obtain ⟨m, p, -, -, hopen⟩ := hchecks
      exact ⟨fun _ => rfl, fun _ => ⟨_, hopen⟩⟩
  · intro fault hfault
    cases hfirst : Check.all.findSome? (Check.error? s selection t advanced) with
    | some e =>
      rw [hfirst] at hchecks
      obtain ⟨c, -, hc⟩ := List.exists_of_findSome?_eq_some hfirst
      obtain rfl := Except.error.inj (hchecks.symm.trans hfault)
      exact Check.error?_ne_invalidSelection fault hc
    | none =>
      rw [hfirst] at hchecks
      obtain ⟨m, p, -, -, hopen⟩ := hchecks
      cases hopen.symm.trans hfault

/-- The source of the regular map is come by without an advance. -/
theorem reached_regularSource : regularSource.Reached false :=
  .use (.push ⟨[[], [255]]⟩) <| .use (.push ⟨[[5, 10, 1, 107, 16, 5], [10, 1, 120]]⟩) <|
    .addMetadata _ _ (.ofWidth 2)

/-- A reader is opened on the source of the regular map, and not any more once it was advanced. -/
theorem ofSource_regularSource_iff :
    (∃ r, ofSource regularSource Sample.regular (.indices [0, 2]) = .ok r) ∧
      ¬∃ r, ofSource (regularSource.use (.call .advance)) Sample.regular (.indices [0, 2]) =
        .ok r := by
  have hparse : Metadata.parse [102, 105, 101, 108, 100, 95, 105, 100, 58, 32, 51, 32, 102, 105,
      101, 108, 100, 95, 105, 100, 58, 32, 45, 49] = .ok ⟨none, [3, -1]⟩ := by
    cbv
  have hopenable : Openable Sample.regular (.indices [0, 2]) regularSource false := by
    refine ⟨fun list hlist index hindex => ?_, ⟨_, _, rfl, hparse, rfl, fun n _ => .inr rfl⟩, rfl⟩
    obtain rfl := Selection.indices.inj hlist
    rcases List.mem_cons.1 hindex with rfl | hindex
    · decide
    · obtain rfl := List.mem_singleton.1 hindex
      decide
  have hbefore := ofSource_exact reached_regularSource Sample.regular (.indices [0, 2])
  have hafter := ofSource_exact (.use (.call .advance) reached_regularSource) Sample.regular
    (.indices [0, 2])
  refine ⟨hbefore.1.2 hopenable, fun hopen => ?_⟩
  exact absurd (hafter.1.1 hopen).fresh (by decide)

end Reader

end ColumnarRecords

import ColumnarRecords.Source.Memory

/-!
# Rows in memory as they are prepared

A source in memory is filled with metadata and rows and told its columns before a record is asked for
(`MemorySource.Prepared`). Each of these steps is checked, so in a source that was prepared every row
is as wide as the source, and the selected columns ascend and are there
(`MemorySource.Prepared.consistent`).

A record is put together by setting the selected columns one after another. Of a source whose rows
and columns were checked this never fails (`MemorySource.Consistent.assemble?_eq_some`), and the
record of a row is the row with the other columns empty (`MemorySource.present`).
-/

namespace ColumnarRecords

open ColumnSource

namespace Record

/-- The record with all columns empty but those selected. -/
def restrict (r : Record) (columns : List Nat) : Record :=
  ⟨r.columns.zipIdx.map fun (bytes, i) => if i ∈ columns then bytes else []⟩

/-- A record is what its columns hold. -/
theorem ext_column? {r r' : Record} (h : ∀ i, r.column? i = r'.column? i) : r = r' :=
  congrArg Record.mk (List.ext_getElem? h)

/-- A record has the columns below its width. -/
theorem column?_eq_some {r : Record} {i : Nat} (h : i < r.width) :
    r.column? i = some r.columns[i] :=
  List.getElem?_eq_getElem h

/-- Setting a column keeps the width. -/
theorem width_set {r r' : Record} {column : Nat} {bytes : List UInt8}
    (h : r.set? column bytes = some r') : r'.width = r.width := by
  simp only [set?, Option.ite_none_right_eq_some, Option.some.injEq] at h
  obtain ⟨-, rfl⟩ := h
  exact List.length_set

/-- A selected column keeps its bytes, and the others are empty. -/
theorem column?_restrict (r : Record) (columns : List Nat) (i : Nat) :
    (r.restrict columns).column? i =
      (r.column? i).map fun bytes => if i ∈ columns then bytes else [] := by
  simp only [restrict, column?, List.getElem?_map, List.getElem?_zipIdx, Option.map_map,
    Nat.zero_add]
  rfl

/-- A record keeps its width. -/
@[simp]
theorem width_restrict (r : Record) (columns : List Nat) :
    (r.restrict columns).width = r.width := by
  simp [restrict, width]

end Record

/-- Positions that ascend are in order throughout. -/
theorem ColumnSource.pairwise_of_isAscending {columns : List Nat} (h : isAscending columns = true) :
    columns.Pairwise (· < ·) := by
  induction columns with
  | nil => exact .nil
  | cons a rest ih =>
    cases rest with
    | nil => exact List.pairwise_singleton _ a
    | cons b rest =>
      rw [isAscending, Bool.and_eq_true, decide_eq_true_eq] at h
      obtain ⟨hab, hrest⟩ := h
      have hordered := ih hrest
      refine List.pairwise_cons.2 ⟨fun c hc => ?_, hordered⟩
      rcases List.mem_cons.1 hc with rfl | hc
      · exact hab
      · have hbc : b < c := (List.pairwise_cons.1 hordered).1 c hc
        omega

namespace MemorySource

/-- A source as it can be before a record is asked for: its metadata and rows are put in and its
columns selected in any order. -/
inductive Prepared : MemorySource → Prop where
  /-- The source of no rows. -/
  | ofWidth (columnCount : Nat) : Prepared (ofWidth columnCount)
  /-- A further entry of the metadata. -/
  | addMetadata {s : MemorySource} (key : String) (value : List UInt8) (h : Prepared s) :
    Prepared (s.addMetadata key value)
  /-- A further row. -/
  | push {s s' : MemorySource} (row : Record) (h : Prepared s) (hpush : s.push row = .ok s') :
    Prepared s'
  /-- Another selection of columns. -/
  | selectColumns {s s' : MemorySource} (columns : List Nat) (h : Prepared s)
    (hselect : s.selectColumns columns = (.ok (), s')) : Prepared s'

/-- What was checked of a source's rows and of its selection holds. -/
structure Consistent (t : MemorySource) : Prop where
  /-- Every row has as many columns as the source. -/
  width : ∀ row ∈ t.rows, row.width = t.columnCount
  /-- The selected columns ascend. -/
  ascending : ∀ columns ∈ t.selected, columns.Pairwise (· < ·)
  /-- The selected columns are there. -/
  inRange : ∀ columns ∈ t.selected, ∀ c ∈ columns, c < t.columnCount

/-- What is presented of a row. -/
def present (s : MemorySource) (row : Record) : Record :=
  match s.selected with
  | none => row
  | some columns => row.restrict columns

/-- The position that comes next. -/
def nextPosition (t : MemorySource) : Nat := t.position.elim 0 (· + 1)

variable {t : MemorySource}

/-! ## The steps -/

/-- A source goes to the next row if there is one. -/
theorem advance_of_lt (h : t.nextPosition < t.rows.length) :
    t.advance = (.ok true, { t with position := some t.nextPosition, started := true }) := by
  unfold nextPosition at h ⊢
  unfold advance
  cases hp : t.position with
  | none =>
    rw [hp] at h
    exact if_pos h
  | some p =>
    rw [hp] at h
    exact if_pos h

/-- A source goes behind its rows if there is no next one. -/
theorem advance_of_le (h : t.rows.length ≤ t.nextPosition) :
    t.advance = (.ok false, { t with position := some t.rows.length, started := true }) := by
  unfold nextPosition at h
  unfold advance
  cases hp : t.position with
  | none =>
    rw [hp] at h
    exact if_neg (Nat.not_lt.2 h)
  | some p =>
    rw [hp] at h
    exact if_neg (Nat.not_lt.2 h)

/-- Once a record was asked for no columns are selected. -/
theorem selectColumns_of_started (h : t.started = true) (columns : List Nat) :
    t.selectColumns columns = (.error (.invalidState .alreadyStarted), t) :=
  if_pos h

/-- Before a record was asked for the columns that pass the check are selected. -/
theorem selectColumns_of_not_started (h : t.started = false) (columns : List Nat) :
    t.selectColumns columns = match checkSelection columns t.columnCount with
      | .error e => (.error e, t)
      | .ok () => (.ok (), { t with selected := some columns }) := by
  have hnot : ¬t.started = true := by
    rw [h]
    exact Bool.false_ne_true
  exact if_neg hnot

/-- A selection is refused and changes nothing, or it passes the check and is taken. -/
theorem selectColumns_cases (t : MemorySource) (columns : List Nat) :
    (∃ e, t.selectColumns columns = (.error e, t)) ∨
      checkSelection columns t.columnCount = .ok () ∧
        t.selectColumns columns = (.ok (), { t with selected := some columns }) := by
  rcases Bool.eq_false_or_eq_true t.started with hstarted | hstarted
  · exact .inl ⟨_, selectColumns_of_started hstarted columns⟩
  · rw [selectColumns_of_not_started hstarted]
    cases checkSelection columns t.columnCount with
    | error e => exact .inl ⟨e, rfl⟩
    | ok u => exact .inr ⟨rfl, rfl⟩

/-- A selection that is taken has passed the check and changes nothing but the selected columns. -/
theorem eq_of_selectColumns {t' : MemorySource} {columns : List Nat}
    (h : t.selectColumns columns = (.ok (), t')) :
    checkSelection columns t.columnCount = .ok () ∧ t' = { t with selected := some columns } := by
  obtain ⟨e, hrefused⟩ | ⟨hcheck, htaken⟩ := t.selectColumns_cases columns
  · rw [hrefused] at h
    cases h
  · rw [htaken] at h
    exact ⟨hcheck, (Prod.mk.inj h).2.symm⟩

/-- A row that is put in is as wide as the source and comes after the others. -/
theorem eq_of_push {t' : MemorySource} {row : Record} (h : t.push row = .ok t') :
    row.width = t.columnCount ∧ t' = { t with rows := t.rows ++ [row] } := by
  unfold MemorySource.push at h
  split at h
  · rename_i hwidth
    exact ⟨hwidth, (Except.ok.inj h).symm⟩
  · cases h

/-- A prepared source stands before its first row. -/
theorem Prepared.position_eq_none (h : t.Prepared) : t.position = none := by
  -- None of the steps before the first record is asked for moves the source.
  induction h with
  | ofWidth columnCount => rfl
  | addMetadata key value h ih => exact ih
  | push row h hpush ih =>
    obtain ⟨-, rfl⟩ := eq_of_push hpush
    exact ih
  | selectColumns columns h hselect ih =>
    obtain ⟨-, rfl⟩ := eq_of_selectColumns hselect
    exact ih

/-! ## What stays checked -/

/-- A further row that is wide enough keeps what was checked. -/
theorem Consistent.push (h : t.Consistent) {row : Record} (hwidth : row.width = t.columnCount) :
    Consistent { t with rows := t.rows ++ [row] } := by
  refine ⟨fun r hr => ?_, h.ascending, h.inRange⟩
  rcases List.mem_append.1 hr with hbefore | hnew
  · exact h.width r hbefore
  · exact List.mem_singleton.1 hnew ▸ hwidth

/-- Columns that pass the check may be selected. -/
theorem Consistent.select (h : t.Consistent) {columns : List Nat}
    (hcheck : checkSelection columns t.columnCount = .ok ()) :
    Consistent { t with selected := some columns } := by
  obtain ⟨hrange, hascending⟩ := checkSelection_eq_ok_iff.1 hcheck
  refine ⟨h.width, fun chosen hchosen => ?_, fun chosen hchosen => ?_⟩
  · obtain rfl := Option.some.inj hchosen
    exact pairwise_of_isAscending hascending
  · obtain rfl := Option.some.inj hchosen
    exact hrange

/-- What is checked holds of every source that was prepared. -/
theorem Prepared.consistent (h : t.Prepared) : t.Consistent := by
  induction h with
  | ofWidth columnCount => exact ⟨nofun, nofun, nofun⟩
  | addMetadata key value h ih => exact ⟨ih.width, ih.ascending, ih.inRange⟩
  | push row h hpush ih =>
    obtain ⟨hwidth, rfl⟩ := eq_of_push hpush
    exact ih.push hwidth
  | selectColumns columns h hselect ih =>
    obtain ⟨hcheck, rfl⟩ := eq_of_selectColumns hselect
    exact ih.select hcheck

/-! ## What is presented -/

/-- Columns of a row that are there can be set one after another in a record as wide. -/
theorem exists_foldlM_set {row : Record} {columns : List Nat} (h : ∀ c ∈ columns, c < row.width)
    {r : Record} (hwidth : r.width = row.width) :
    ∃ r', columns.foldlM (fun r column => (row.column? column).bind (r.set? column)) r = some r' ∧
      ∀ i, r'.column? i = if i ∈ columns then row.column? i else r.column? i := by
  -- Each step sets a column of what the steps before it left, so this is for any record as wide.
  induction columns generalizing r with
  | nil => exact ⟨r, rfl, fun i => by simp⟩
  | cons c rest ih =>
    have hc : c < row.width := h c List.mem_cons_self
    obtain ⟨r₁, hset⟩ : ∃ r₁, r.set? c row.columns[c] = some r₁ :=
      ⟨⟨r.columns.set c row.columns[c]⟩, if_pos (hwidth ▸ hc)⟩
    have hwidth₁ : r₁.width = row.width := (Record.width_set hset).trans hwidth
    obtain ⟨r', hrest, hcolumns⟩ := ih (fun c hc => h c (List.mem_cons_of_mem _ hc)) hwidth₁
    refine ⟨r', ?_, fun i => ?_⟩
    · rw [List.foldlM_cons, Record.column?_eq_some hc, Option.bind_some, hset]
      exact hrest
    · rw [hcolumns, Record.column?_set hset]
      by_cases hi : i = c
      · subst hi
        simp [Record.column?_eq_some hc]
      · simp [hi]

/-- The record of a row can be put together, and it is the one that is presented. -/
theorem Consistent.assemble?_eq_some (h : t.Consistent) {row : Record}
    (hrow : row.width = t.columnCount) : t.assemble? row = some (t.present row) := by
  unfold assemble? present
  cases hselected : t.selected with
  | none => rfl
  | some columns =>
    have hrange : ∀ c ∈ columns, c < row.width := hrow ▸ h.inRange columns hselected
    have hwidth : (Record.ofWidth t.columnCount).width = row.width :=
      List.length_replicate.trans hrow.symm
    obtain ⟨r, hfold, hcolumns⟩ := exists_foldlM_set hrange hwidth
    refine hfold.trans (congrArg some (Record.ext_column? fun i => ?_))
    rw [hcolumns, Record.column?_restrict]
    -- A column that is not selected is one of the empty ones at the start, or is not there.
    have hempty : (Record.ofWidth t.columnCount).column? i = (row.column? i).map fun _ => [] := by
      rw [Record.column?, Record.ofWidth, ← hrow, List.getElem?_replicate]
      by_cases hi : i < row.width
      · rw [if_pos hi, Record.column?_eq_some hi]
        rfl
      · rw [if_neg hi, Record.column?, List.getElem?_eq_none (Nat.le_of_not_lt hi)]
        rfl
    by_cases hi : i ∈ columns
    · simp [hi]
    · simp [hi, hempty]

/-- The current record is what is presented of the row that the source stands at. -/
theorem Consistent.current?_eq (h : t.Consistent) :
    t.current? =
      match t.position with
      | none => none
      | some p => (t.rows[p]?).map t.present := by
  unfold current?
  cases t.position with
  | none => rfl
  | some p =>
    cases hrow : t.rows[p]? with
    | none => simp only [hrow, Option.bind_none, Option.map_none]
    | some row =>
      have hwidth : row.width = t.columnCount := h.width row (List.mem_of_getElem? hrow)
      simp only [hrow, Option.bind_some, Option.map_some, h.assemble?_eq_some hwidth]

end MemorySource

end ColumnarRecords

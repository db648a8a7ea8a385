import Mathlib
import ColumnarRecords.Proofs.Source.Exchange
import ColumnarRecords.Proofs.Source.Prepared
import ColumnarRecords.Source.File

/-!
# Files and rows in memory are interchangeable

A source that reads a whole file and one that holds the file's rows in memory answer every sequence
of calls alike, however the file is cut into row groups and its rows into batches
(`FileSource.converse_eq_memory`).

The proof is a bisimulation. `FileSource.Agrees` relates the two sources: before the first record
was asked for neither has moved; at a record the rest of the batch and the batches to come are the
rows from the position on, projected; and after the last record nothing is left of either. What is
read of a row is the same because the selected columns ascend: the file gives the cells in the order
of its columns, which is then that of the selection (`project_eq_map`).
-/

namespace ColumnarRecords

open ColumnSource

/-- The cells of a row as a record. A cell that holds nothing is empty. -/
def Record.ofCells (row : Cells) : Record := ⟨row.map fun cell => cell.getD []⟩

/-- The bytes of a record of cells. -/
theorem Record.column?_ofCells (row : Cells) (i : Nat) :
    (Record.ofCells row).column? i = row[i]?.map fun cell => cell.getD [] :=
  List.getElem?_map

/-- The file is a table of bytes: every column holds bytes, and every row has a cell for each. -/
structure ColumnFile.IsTable (file : ColumnFile) : Prop where
  /-- Every column holds bytes. -/
  binary : ∀ c ∈ file.columns, c.type = "Binary"
  /-- Every row has a cell for each column. -/
  width : ∀ row ∈ file.rowGroups.flatten, row.length = file.columns.length

namespace FileSource

/-- The cells at selected positions of a row that starts at some position, if the selected ones
ascend and are all in the row. -/
theorem filterMap_zipIdx_eq_map {row : Cells} {start : Nat} {columns : List Nat}
    (hascending : columns.Pairwise (· < ·))
    (hrange : ∀ c ∈ columns, start ≤ c ∧ c < start + row.length) :
    ((row.zipIdx start).filterMap fun (cell, i) => if i ∈ columns then some cell else none) =
      columns.map fun c => row[c - start]?.join := by
  induction row generalizing start columns with
  | nil =>
    have hnone : columns = [] := by
      refine List.eq_nil_iff_forall_not_mem.2 fun c hc => ?_
      have hc := hrange c hc
      rw [List.length_nil] at hc
      omega
    rw [hnone]
    rfl
  | cons cell rest ih =>
    -- What is said of the columns after the first is the same for the rest of the row.
    have hrest : ∀ cs : List Nat, cs.Pairwise (· < ·) →
        (∀ c ∈ cs, start + 1 ≤ c ∧ c < start + (cell :: rest).length) →
        ((rest.zipIdx (start + 1)).filterMap fun (cell, i) =>
            if i ∈ cs then some cell else none) =
          cs.map fun c => (cell :: rest)[c - start]?.join := by
      intro cs hcs hin
      rw [ih hcs fun c hc => by
        have hc := hin c hc
        rw [List.length_cons] at hc
        omega]
      refine List.map_congr_left fun c hc => ?_
      have hc := hin c hc
      rw [show c - start = c - (start + 1) + 1 by omega, List.getElem?_cons_succ]
    rw [List.zipIdx_cons, List.filterMap_cons]
    cases columns with
    | nil => exact hrest [] .nil fun c hc => absurd hc List.not_mem_nil
    | cons first others =>
      obtain ⟨hfirst, hothers⟩ := List.pairwise_cons.1 hascending
      have hbound := hrange first List.mem_cons_self
      by_cases hstart : first = start
      · -- The row's first cell is selected, and by no column after the first.
        subst hstart
        have hsame : ((rest.zipIdx (first + 1)).filterMap fun (cell, i) =>
              if i ∈ first :: others then some cell else none) =
            (rest.zipIdx (first + 1)).filterMap fun (cell, i) =>
              if i ∈ others then some cell else none := by
          refine List.filterMap_congr fun e he => ?_
          have hne : e.2 ≠ first := by
            have := List.le_snd_of_mem_zipIdx he
            omega
          simp only [List.mem_cons, hne, false_or]
        simp only [List.mem_cons_self, if_true, List.map_cons, Nat.sub_self,
          List.getElem?_cons_zero, Option.join_some]
        rw [hsame, hrest others hothers fun c hc => ?_]
        have hlt := hfirst c hc
        have hc := hrange c (List.mem_cons_of_mem _ hc)
        omega
      · -- It is not, as the columns ascend from a later one.
        have hnotMem : start ∉ first :: others := by
          intro hmem
          rcases List.mem_cons.1 hmem with h | h
          · exact hstart h.symm
          · have := hfirst start h
            omega
        simp only [hnotMem, if_false]
        refine hrest (first :: others) hascending fun c hc => ?_
        have hin := hrange c hc
        rcases List.mem_cons.1 hc with rfl | hmem
        · omega
        · have := hfirst c hmem
          omega

/-- The cells of selected columns that ascend are those at their positions, in the order of the
selection. -/
theorem project_eq_map {row : Cells} {columns : List Nat} (hascending : columns.Pairwise (· < ·))
    (hrange : ∀ c ∈ columns, c < row.length) :
    project columns row = columns.map fun c => row[c]?.join := by
  have hwithin : ∀ c ∈ columns, 0 ≤ c ∧ c < 0 + row.length := by
    intro c hc
    have := hrange c hc
    omega
  exact filterMap_zipIdx_eq_map hascending hwithin

/-- What a list holds at a position after other positions were set to what a function gives. -/
theorem getElem?_foldl_set {α : Type} (f : Nat → α) (columns : List Nat) (l : List α) (i : Nat) :
    (columns.foldl (fun l c => l.set c (f c)) l)[i]? =
      if i ∈ columns then l[i]?.map fun _ => f i else l[i]? := by
  induction columns generalizing l with
  | nil => rfl
  | cons c rest ih =>
    rw [List.foldl_cons, ih, List.getElem?_set']
    by_cases hc : c = i
    · subst hc
      by_cases hrest : c ∈ rest
      · simp [hrest, Function.comp_def]
      · simp only [hrest, if_false, List.mem_cons_self, if_true]
        rfl
    · have hc' : ¬i = c := fun h => hc h.symm
      simp only [hc, if_false, List.mem_cons, hc', false_or]

/-- The columns of a record after some of them were set one after another. -/
theorem columns_foldl_set (f : Nat → List UInt8) (columns : List Nat) (r : Record) :
    (columns.foldl (fun r c => (⟨r.columns.set c (f c)⟩ : Record)) r).columns =
      columns.foldl (fun l c => l.set c (f c)) r.columns := by
  induction columns generalizing r with
  | nil => rfl
  | cons c rest ih => exact ih ⟨r.columns.set c (f c)⟩

/-- The record of what is read of a row is the row's, restricted to the selected columns. -/
theorem expand_project {s : FileSource} {row : Cells} (hascending : s.selected.Pairwise (· < ·))
    (hrange : ∀ c ∈ s.selected, c < s.columnCount) (hwidth : row.length = s.columnCount) :
    s.expand (project s.selected row) = (Record.ofCells row).restrict s.selected := by
  have hcolumns : (s.expand (project s.selected row)).columns =
      s.selected.foldl (fun l c => l.set c (row[c]?.join.getD []))
        (List.replicate s.columnCount []) := by
    rw [expand, project_eq_map hascending (hwidth ▸ hrange), ← List.map_prod_left_eq_zip,
      List.foldl_map, columns_foldl_set]
    rfl
  suffices h : (s.expand (project s.selected row)).columns =
      ((Record.ofCells row).restrict s.selected).columns from congrArg Record.mk h
  refine List.ext_getElem? fun i => ?_
  have hrestrict := Record.column?_restrict (Record.ofCells row) s.selected i
  rw [Record.column?, Record.column?_ofCells] at hrestrict
  rw [hcolumns, getElem?_foldl_set, hrestrict, List.getElem?_replicate, ← hwidth]
  by_cases hi : i < row.length
  · rw [List.getElem?_eq_getElem hi]
    by_cases hmem : i ∈ s.selected <;> simp [hi, hmem]
  · rw [List.getElem?_eq_none (by omega)]
    simp [hi]

end FileSource

namespace MemorySource

/-- A row is presented restricted to the selected columns, which are all at first. -/
theorem present_eq_restrict (t : MemorySource) (row : Record) :
    t.present row = row.restrict (t.selected.getD (List.range row.width)) := by
  unfold present
  cases t.selected with
  | some columns => rfl
  | none =>
    suffices h : row.columns = (row.restrict (List.range row.width)).columns from
      congrArg Record.mk h
    refine List.ext_getElem? fun i => ?_
    have hrestrict := Record.column?_restrict row (List.range row.width) i
    rw [Record.column?, Record.column?] at hrestrict
    show row.columns[i]? = (row.restrict (List.range row.width)).columns[i]?
    rw [hrestrict]
    cases hi : row.columns[i]? with
    | none => rfl
    | some bytes =>
      have hlt : i < row.width := (List.getElem?_eq_some_iff.1 hi).1
      simp [hlt]

end MemorySource

namespace FileSource

/-- Where two sources of the same rows stand. -/
inductive Place (rows : List Cells) (s : FileSource) (t : MemorySource) : Prop where
  /-- No record has been asked for. -/
  | before (hbatches : s.batches = none) (hbatch : s.batch = none) (hposition : t.position = none)
    (hstarted : t.started = false)
  /-- They stand at a row: what the file has left of its batch and the batches to come are the rows
  from this one on. -/
  | row (k : Nat) (batch : List Cells) (rest : List (List Cells)) (hbatches : s.batches = some rest)
    (hbatch : s.batch = some batch) (hrow : s.row < batch.length)
    (hleft : batch.drop s.row ++ rest.flatten = (rows.drop k).map (project s.selected))
    (hposition : t.position = some k) (hstarted : t.started = true)
  /-- They stand behind the last row. -/
  | after (hbatches : s.batches = some []) (hbatch : s.batch = none)
    (hposition : t.position = some rows.length) (hstarted : t.started = true)

/-- Two sources hold the same rows of cells and read the same columns of them. -/
structure Alike (rows : List Cells) (s : FileSource) (t : MemorySource) : Prop where
  /-- They have as many columns. -/
  columnCount : t.columnCount = s.columnCount
  /-- Every row has a cell for each column. -/
  width : ∀ row ∈ rows, row.length = s.columnCount
  /-- The file's rows. -/
  fileRows : s.rows = rows
  /-- The rows in memory. -/
  memoryRows : t.rows = rows.map Record.ofCells
  /-- The selected columns ascend. -/
  ascending : s.selected.Pairwise (· < ·)
  /-- The selected columns are there. -/
  range : ∀ c ∈ s.selected, c < s.columnCount
  /-- The same columns are selected, which are all at first. -/
  selected : t.selected.getD (List.range s.columnCount) = s.selected

/-- Two sources hold the same rows and stand at the same place. -/
structure Agrees (rows : List Cells) (s : FileSource) (t : MemorySource) : Prop where
  /-- They hold the same rows. -/
  alike : Alike rows s t
  /-- They stand at the same place. -/
  place : Place rows s t

variable {rows : List Cells} {s : FileSource} {t : MemorySource}

/-- There are as many rows in memory. -/
theorem Alike.length_rows (h : Alike rows s t) : t.rows.length = rows.length := by
  rw [h.memoryRows, List.length_map]

/-- The rows in memory are as wide as the source, and the columns selected of them are right. -/
theorem Alike.consistent (h : Alike rows s t) : t.Consistent := by
  have hchosen : ∀ columns ∈ t.selected, columns = s.selected := by
    intro columns hcolumns
    have hsame := h.selected
    rwa [Option.mem_def.1 hcolumns] at hsame
  refine ⟨fun row hrow => ?_, fun columns hcolumns => ?_, fun columns hcolumns => ?_⟩
  · rw [h.memoryRows] at hrow
    obtain ⟨cells, hcells, rfl⟩ := List.mem_map.1 hrow
    rw [h.columnCount, ← h.width cells hcells]
    exact List.length_map _
  · rw [hchosen columns hcolumns]
    exact h.ascending
  · rw [hchosen columns hcolumns, h.columnCount]
    exact h.range

/-- Batches without a row hold none of the rows. -/
theorem flatten_dropWhile_isEmpty (batches : List (List Cells)) :
    (batches.dropWhile List.isEmpty).flatten = batches.flatten := by
  induction batches with
  | nil => rfl
  | cons b rest ih =>
    cases b with
    | nil => exact ih
    | cons cells others => rfl

/-- The next batch that has a row begins where the memory goes next, if the batches to come hold the
rows from there on. -/
theorem Alike.nextBatch (h : Alike rows s t)
    (hpending : s.pending.flatten = (rows.drop t.nextPosition).map (project s.selected)) :
    s.nextBatch.1 = t.advance.1 ∧ Agrees rows s.nextBatch.2 t.advance.2 := by
  rw [← flatten_dropWhile_isEmpty] at hpending
  have hlength := congrArg List.length hpending
  rw [List.length_map, List.length_drop] at hlength
  unfold FileSource.nextBatch
  cases hdrop : s.pending.dropWhile List.isEmpty with
  | nil =>
    -- No row is left, so the memory goes behind its rows.
    rw [hdrop, List.flatten_nil, List.length_nil] at hlength
    have hend : t.rows.length ≤ t.nextPosition := by
      rw [h.length_rows]
      omega
    rw [MemorySource.advance_of_le hend]
    refine ⟨rfl, { h with }, .after rfl rfl ?_ rfl⟩
    exact congrArg some h.length_rows
  | cons b rest =>
    have hfull : 0 < b.length := by
      have hhead := List.head?_dropWhile_not List.isEmpty s.pending
      rw [hdrop, List.head?_cons] at hhead
      cases b with
      | nil => exact absurd hhead (by decide)
      | cons cells others => exact Nat.zero_lt_succ _
    rw [hdrop, List.flatten_cons] at hpending hlength
    have hlt : t.nextPosition < t.rows.length := by
      rw [h.length_rows]
      rw [List.length_append] at hlength
      omega
    rw [MemorySource.advance_of_lt hlt]
    exact ⟨rfl, { h with }, .row t.nextPosition b rest rfl rfl hfull hpending rfl rfl⟩

/-- Without a batch a source goes to the next one. -/
theorem advance_of_none (h : s.batch = none) : s.advance = s.nextBatch := by
  unfold FileSource.advance
  rw [h]

/-- Inside a batch a source goes to the next row of it. -/
theorem advance_of_lt {batch : List Cells} (h : s.batch = some batch)
    (hmore : s.row + 1 < batch.length) : s.advance = (.ok true, { s with row := s.row + 1 }) := by
  unfold FileSource.advance
  rw [h]
  exact if_pos hmore

/-- At the last row of a batch a source goes to the next one. -/
theorem advance_of_not_lt {batch : List Cells} (h : s.batch = some batch)
    (hmore : ¬s.row + 1 < batch.length) : s.advance = s.nextBatch := by
  unfold FileSource.advance
  rw [h]
  exact if_neg hmore

/-- Both sources have the same next row, or none. -/
theorem Agrees.advance (h : Agrees rows s t) :
    s.advance.1 = t.advance.1 ∧ Agrees rows s.advance.2 t.advance.2 := by
  obtain ⟨halike, hplace⟩ := h
  cases hplace with
  | before hbatches hbatch hposition hstarted =>
    have hnext : t.nextPosition = 0 := by
      rw [MemorySource.nextPosition, hposition]
      rfl
    rw [advance_of_none hbatch]
    refine halike.nextBatch ?_
    rw [pending, hbatches, hnext, Option.getD_none, s.batching.flatten_cut, halike.fileRows,
      List.drop_zero]
  | after hbatches hbatch hposition hstarted =>
    have hnext : t.nextPosition = rows.length + 1 := by
      rw [MemorySource.nextPosition, hposition]
      rfl
    rw [advance_of_none hbatch]
    refine halike.nextBatch ?_
    rw [pending, hbatches, hnext, Option.getD_some, List.drop_eq_nil_of_le (Nat.le_succ _)]
    rfl
  | row k batch rest hbatches hbatch hrow hleft hposition hstarted =>
    have hnext : t.nextPosition = k + 1 := by
      rw [MemorySource.nextPosition, hposition]
      rfl
    -- The row that the sources stand at is the first of those left of both.
    have hafter : batch.drop (s.row + 1) ++ rest.flatten =
        (rows.drop (k + 1)).map (project s.selected) := by
      have htail := congrArg List.tail hleft
      rwa [List.drop_eq_getElem_cons hrow, List.cons_append, List.tail_cons, ← List.map_tail,
        List.tail_drop] at htail
    by_cases hmore : s.row + 1 < batch.length
    · have hlength := congrArg List.length hafter
      rw [List.length_append, List.length_drop, List.length_map, List.length_drop] at hlength
      have hlt : t.nextPosition < t.rows.length := by
        rw [halike.length_rows, hnext]
        omega
      rw [advance_of_lt hbatch hmore, MemorySource.advance_of_lt hlt]
      refine ⟨rfl, { halike with }, ?_⟩
      exact .row (k + 1) batch rest hbatches hbatch hmore hafter (congrArg some hnext) rfl
    · rw [advance_of_not_lt hbatch hmore]
      refine halike.nextBatch ?_
      rw [List.drop_eq_nil_of_le (by omega), List.nil_append] at hafter
      rw [pending, hbatches, Option.getD_some, hafter, hnext]

/-- Both sources stand at the same record, or at none. -/
theorem Agrees.current (h : Agrees rows s t) : s.current? = t.current? := by
  obtain ⟨halike, hplace⟩ := h
  rw [halike.consistent.current?_eq]
  unfold current?
  cases hplace with
  | before hbatches hbatch hposition hstarted => rw [hbatch, hposition]
  | after hbatches hbatch hposition hstarted =>
    rw [hbatch, hposition]
    simp only
    rw [List.getElem?_eq_none (Nat.le_of_eq halike.length_rows)]
    rfl
  | row k batch rest hbatches hbatch hrow hleft hposition hstarted =>
    have hlength := congrArg List.length hleft
    rw [List.length_append, List.length_drop, List.length_map, List.length_drop] at hlength
    have hk : k < rows.length := by omega
    -- The cells that the file stands at are the first of those left.
    have hcells : batch[s.row] = project s.selected rows[k] := by
      rw [List.drop_eq_getElem_cons hrow, List.drop_eq_getElem_cons hk, List.map_cons,
        List.cons_append] at hleft
      exact (List.cons.inj hleft).1
    have hwidth : rows[k].length = s.columnCount := halike.width _ (List.getElem_mem hk)
    have hrecord : (Record.ofCells rows[k]).width = s.columnCount := by
      rw [← hwidth]
      exact List.length_map _
    rw [hbatch, hposition]
    simp only
    rw [halike.memoryRows, List.getElem?_map, List.getElem?_eq_getElem hrow,
      List.getElem?_eq_getElem hk, Option.map_some, Option.map_some, Option.map_some, hcells,
      expand_project halike.ascending halike.range hwidth, MemorySource.present_eq_restrict,
      hrecord, halike.selected]

/-- Once a record was asked for no columns are selected. -/
theorem selectColumns_of_started (h : s.batches.isSome = true) (columns : List Nat) :
    s.selectColumns columns = (.error (.invalidState .alreadyStarted), s) :=
  if_pos h

/-- Before a record was asked for the columns that pass the check are selected. -/
theorem selectColumns_of_not_started (h : s.batches = none) (columns : List Nat) :
    s.selectColumns columns = match checkSelection columns s.columnCount with
      | .error e => (.error e, s)
      | .ok () => (.ok (), { s with selected := columns }) := by
  have hnot : ¬s.batches.isSome = true := by
    rw [h]
    exact Bool.false_ne_true
  exact if_neg hnot

/-- Columns that are selected pass the check. -/
theorem checkSelection_of_selectColumns {s s' : FileSource} {columns : List Nat}
    (h : s.selectColumns columns = (.ok (), s')) :
    checkSelection columns s.columnCount = .ok () := by
  unfold FileSource.selectColumns at h
  split at h
  · cases h
  · split at h
    · cases h
    · assumption

/-- Both sources take a selection of columns, or refuse it for the same reason. -/
theorem Agrees.selectColumns (h : Agrees rows s t) (columns : List Nat) :
    (s.selectColumns columns).1 = (t.selectColumns columns).1 ∧
      Agrees rows (s.selectColumns columns).2 (t.selectColumns columns).2 := by
  have hsame := h
  obtain ⟨halike, hplace⟩ := h
  -- Only before the first record does a selection change anything, and then the check decides.
  cases hplace with
  | row k batch rest hbatches hbatch hrow hleft hposition hstarted =>
    rw [selectColumns_of_started (by rw [hbatches]; rfl),
      MemorySource.selectColumns_of_started hstarted]
    exact ⟨rfl, hsame⟩
  | after hbatches hbatch hposition hstarted =>
    rw [selectColumns_of_started (by rw [hbatches]; rfl),
      MemorySource.selectColumns_of_started hstarted]
    exact ⟨rfl, hsame⟩
  | before hbatches hbatch hposition hstarted =>
    rw [selectColumns_of_not_started hbatches, MemorySource.selectColumns_of_not_started hstarted]
    have hsameCheck := congrArg (checkSelection columns) halike.columnCount
    cases hcheck : checkSelection columns s.columnCount with
    | error e =>
      rw [hsameCheck, hcheck]
      exact ⟨rfl, hsame⟩
    | ok u =>
      cases u
      rw [hsameCheck, hcheck]
      obtain ⟨hrange, hascending⟩ := checkSelection_eq_ok_iff.1 hcheck
      have hselected :
          Alike rows { s with selected := columns } { t with selected := some columns } :=
        { halike with
          ascending := pairwise_of_isAscending hascending
          range := hrange
          selected := rfl }
      exact ⟨rfl, hselected, .before hbatches hbatch hposition hstarted⟩

/-- Sources that agree answer every call alike and agree after it. -/
theorem Agrees.exchange (h : Agrees rows s t) (call : Call) :
    (exchange call s).1 = (exchange call t).1 ∧
      Agrees rows (exchange call s).2 (exchange call t).2 := by
  cases call with
  | columnCount => exact ⟨congrArg Exchange.columnCount h.alike.columnCount.symm, h⟩
  | selectColumns columns =>
    obtain ⟨hanswer, hafter⟩ := h.selectColumns columns
    exact ⟨congrArg (Exchange.selectColumns columns) hanswer, hafter⟩
  | advance =>
    obtain ⟨hanswer, hafter⟩ := h.advance
    exact ⟨congrArg Exchange.advance hanswer, hafter⟩
  | current => exact ⟨congrArg (fun r => Exchange.current (.ok r)) h.current, h⟩

/-- Rows that are wide enough can all be put into memory. -/
theorem foldlM_push {t : MemorySource} {records : List Record}
    (h : ∀ r ∈ records, r.width = t.columnCount) :
    records.foldlM (fun t r => t.push r) t = .ok { t with rows := t.rows ++ records } := by
  induction records generalizing t with
  | nil => rw [List.append_nil]; rfl
  | cons r rest ih =>
    have hpush : t.push r = .ok { t with rows := t.rows ++ [r] } :=
      if_pos (h r List.mem_cons_self)
    rw [List.foldlM_cons, hpush]
    have hrest := ih (t := { t with rows := t.rows ++ [r] }) fun r hr =>
      h r (List.mem_cons_of_mem _ hr)
    rw [List.append_assoc] at hrest
    exact hrest

/-- A whole file that is a table and its rows in memory, an empty cell read as no bytes, answer
every sequence of calls alike: the same numbers of columns, the same records, and the same errors,
whatever the row groups are and however the rows are cut into batches. -/
theorem converse_eq_memory {file : ColumnFile} (h : file.IsTable) (batching : Batching)
    (batchSize : Nat) :
    ∃ s t, openWith batching file ⟨0, 0, batchSize⟩ = .ok s ∧
      (file.rowGroups.flatten.map Record.ofCells).foldlM (fun t r => t.push r)
        (MemorySource.ofWidth file.columns.length) = .ok t ∧
      ∀ calls, (converse calls s).1 = (converse calls t).1 := by
  have hcolumns : checkColumns file.columns = .ok () := by
    unfold checkColumns
    rw [List.find?_eq_none.2 fun c hc => by simp [h.binary c hc]]
  have hwidth : ∀ r ∈ file.rowGroups.flatten.map Record.ofCells,
      r.width = (MemorySource.ofWidth file.columns.length).columnCount := by
    intro r hr
    obtain ⟨row, hrow, rfl⟩ := List.mem_map.1 hr
    exact (List.length_map _).trans (h.width row hrow)
  have hopen : openWith batching file ⟨0, 0, batchSize⟩ = .ok
      ⟨batching, file.columns.length, file.metadata, file.rowGroups.flatten,
        List.range file.columns.length, none, none, 0⟩ := by
    have hsplit : split file ⟨0, 0, batchSize⟩ = .ok file.rowGroups := by
      simp [split, Word.groupRange?, Word.Checked.sub?, Word.Checked.add?]
    unfold openWith
    rw [hcolumns, hsplit]
  refine ⟨_, _, hopen, foldlM_push hwidth, converse_eq_of_simulation
    (R := Agrees file.rowGroups.flatten) (fun _ _ hagrees => hagrees.exchange) ?_⟩
  refine ⟨⟨rfl, h.width, rfl, List.nil_append _, List.pairwise_lt_range, ?_, rfl⟩,
    .before rfl rfl rfl rfl⟩
  exact fun c hc => List.mem_range.1 hc

/-- A table of two columns and three rows in two row groups. -/
def sampleTable : ColumnFile :=
  ⟨[⟨"name", "Binary"⟩, ⟨"id", "Binary"⟩],
    [[[some [1], none], [some [], some [2]]], [[none, some [3]]]], []⟩

/-- Calls that select columns in the wrong order, in the right one and too late, and that go past
the last row. -/
def sampleCalls : List Call :=
  [.selectColumns [1, 0], .selectColumns [1], .current, .advance, .selectColumns [0], .advance,
    .advance, .current, .advance, .advance, .current, .columnCount]

/-- What the table's rows answer in memory, its file answers in batches of a size of zero. -/
theorem converse_sampleTable :
    sampleTable.IsTable ∧
      ∃ s, openWith (.ofSize 0) sampleTable ⟨0, 0, 0⟩ = .ok s ∧
        (converse sampleCalls s).1 =
          [.selectColumns [1, 0] (.error (.invalidSelection (.notAscending [1, 0]))),
            .selectColumns [1] (.ok ()), .current (.ok none), .advance (.ok true),
            .selectColumns [0] (.error (.invalidState .alreadyStarted)), .advance (.ok true),
            .advance (.ok true), .current (.ok (some ⟨[[], [3]]⟩)), .advance (.ok false),
            .advance (.ok false), .current (.ok none), .columnCount 2] := by
  have htable : sampleTable.IsTable := ⟨by decide, by decide⟩
  obtain ⟨s, t, hfile, hmemory, hsame⟩ := converse_eq_memory htable (.ofSize 0) 0
  refine ⟨htable, s, hfile, ?_⟩
  obtain rfl := Except.ok.inj hmemory
  rw [hsame]
  rfl

end FileSource

end ColumnarRecords

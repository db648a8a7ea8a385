import ColumnarRecords.Proofs.Source.Interchange

/-!
# Splits of a file

A file is read in splits, each by a source of its own. A split that begins beyond the file's row
groups is refused. Any other one delivers the rows of its row groups, which are those from its first
one up to its end, or up to the end of the file; so splits that follow one another deliver what a
source of the whole file does (`FileSource.openWith_splits`).

The range of a split is computed with checks (`Word.groupRange?`). On words of 64 bits it comes out as
on numbers without bounds: nothing goes below zero or beyond the words (`Word.groupRange?_eq`).

What a source delivers is read off its rows in memory: they agree (`FileSource.Agrees`), also once
columns were selected of both, and the rows in memory deliver themselves
(`MemorySource.delivers_present`).
-/

namespace ColumnarRecords

open ColumnSource

/-! ## Delivery -/

namespace ColumnSource

variable {σ τ : Type} [ColumnSource σ] [ColumnSource τ]

/-- A source delivers records: it moves to each of them in turn, and then finds no more. -/
inductive Delivers : σ → List Record → Prop where
  /-- There is no next record. -/
  | done {s s' : σ} (hadvance : advance s = (.ok false, s')) : Delivers s []
  /-- There is one, and others after it. -/
  | next {s s' s'' : σ} {record : Record} {records : List Record}
    (hadvance : advance s = (.ok true, s')) (hcurrent : current s' = (.ok (some record), s''))
    (hrest : Delivers s'' records) : Delivers s (record :: records)

/-- The source after selections of columns one after another; those that do not pass change
nothing. -/
def selectAll (selections : List (List Nat)) (s : σ) : σ :=
  selections.foldl (fun s columns => (selectColumns columns s).2) s

/-- The selected columns after a further selection. -/
def reselect (columnCount : Nat) (selected columns : List Nat) : List Nat :=
  if (checkSelection columns columnCount).isOk then columns else selected

/-- The selected columns after selections: those of the last one that passed, or all. -/
def selectedBy (columnCount : Nat) (selections : List (List Nat)) : List Nat :=
  selections.foldl (reselect columnCount) (List.range columnCount)

end ColumnSource

namespace MemorySource

/-- Rows in memory deliver the rows from where the source stands on. -/
theorem delivers_present {t : MemorySource} (h : t.Consistent) :
    Delivers t ((t.rows.drop t.nextPosition).map t.present) := by
  -- Each advance leaves a row less.
  induction hleft : t.rows.length - t.nextPosition generalizing t with
  | zero =>
    have hle : t.rows.length ≤ t.nextPosition := by omega
    rw [List.drop_eq_nil_of_le hle]
    exact .done (advance_of_le hle)
  | succ left ih =>
    have hlt : t.nextPosition < t.rows.length := by omega
    have hat : Consistent { t with position := some t.nextPosition, started := true } :=
      { h with }
    have hrest := ih hat (by
      show t.rows.length - (t.nextPosition + 1) = left
      omega)
    rw [List.drop_eq_getElem_cons hlt]
    refine .next (advance_of_lt hlt) ?_ hrest
    show (Except.ok (MemorySource.current? _), _) = _
    rw [hat.current?_eq]
    simp only [List.getElem?_eq_getElem hlt]
    rfl

end MemorySource

namespace FileSource

variable {rows : List Cells} {s : FileSource} {t : MemorySource}

/-- A source delivers what its rows in memory do. -/
theorem Agrees.delivers (h : Agrees rows s t) {records : List Record}
    (hdelivers : Delivers t records) : Delivers s records := by
  induction hdelivers generalizing s with
  | @done t t' hadvance =>
    obtain ⟨hanswer, -⟩ := h.advance
    have hfirst : s.advance.1 = .ok false := hanswer.trans (congrArg Prod.fst hadvance)
    have hend : ColumnSource.advance s = (.ok false, s.advance.2) := Prod.ext hfirst rfl
    exact .done hend
  | @next t t' t'' record records hadvance hcurrent hrest ih =>
    obtain ⟨hanswer, hafter⟩ := h.advance
    have hfirst : s.advance.1 = .ok true := hanswer.trans (congrArg Prod.fst hadvance)
    have hsecond : t.advance.2 = t' := congrArg Prod.snd hadvance
    rw [hsecond] at hafter
    obtain ⟨hrecord, rfl⟩ := Prod.mk.inj hcurrent
    have hsame : s.advance.2.current? = some record :=
      hafter.current.trans (Except.ok.inj hrecord)
    have hfound : ColumnSource.advance s = (.ok true, s.advance.2) := Prod.ext hfirst rfl
    have hpresent : ColumnSource.current s.advance.2 = (.ok (some record), s.advance.2) :=
      Prod.ext (congrArg Except.ok hsame) rfl
    exact .next hfound hpresent (ih hafter)

/-- Sources that agree do so after selections of columns. -/
theorem Agrees.selectAll (h : Agrees rows s t) (selections : List (List Nat)) :
    Agrees rows (selectAll selections s) (selectAll selections t) := by
  induction selections generalizing s t with
  | nil => exact h
  | cons columns rest ih => exact ih (h.selectColumns columns).2

/-- Selections before the first record was asked for change the selected columns only. -/
theorem selectAll_eq (h : s.batches = none) (selections : List (List Nat)) :
    selectAll selections s =
      { s with selected := selections.foldl (reselect s.columnCount) s.selected } := by
  induction selections generalizing s with
  | nil => rfl
  | cons columns rest ih =>
    have hfirst : (s.selectColumns columns).2 =
        { s with selected := reselect s.columnCount s.selected columns } := by
      rw [selectColumns_of_not_started h, reselect]
      cases checkSelection columns s.columnCount with
      | error e => rfl
      | ok u => rfl
    show ColumnSource.selectAll rest (s.selectColumns columns).2 = _
    rw [hfirst]
    exact ih (s := { s with selected := reselect s.columnCount s.selected columns }) h

/-- A source reads rows: whatever columns are selected, it delivers the rows in their order, each of
them restricted to the selected columns. -/
def Reads (s : FileSource) (rows : List Cells) : Prop :=
  ∀ selections, Delivers (selectAll selections s)
    (rows.map fun row => (Record.ofCells row).restrict (selectedBy s.columnCount selections))

/-- A source that agrees with rows in memory, before the first record was asked for, reads the
rows. -/
theorem Agrees.reads (h : Agrees rows s t) (hbatches : s.batches = none)
    (hselected : s.selected = List.range s.columnCount) : s.Reads rows := by
  intro selections
  have hafter := h.selectAll selections
  have hsource := selectAll_eq hbatches selections
  rw [hselected] at hsource
  generalize ColumnSource.selectAll selections t = t' at hafter
  rw [hsource] at hafter ⊢
  -- The memory stands before its first row, too, and has selected the same columns.
  have hposition : t'.position = none := by
    cases hafter.place with
    | before _ _ hposition _ => exact hposition
    | row _ _ _ hsome _ _ _ _ _ => cases hsome.symm.trans hbatches
    | after hsome _ _ _ => cases hsome.symm.trans hbatches
  have hnext : t'.nextPosition = 0 := by
    rw [MemorySource.nextPosition, hposition]
    rfl
  have hpresent : t'.rows.map t'.present = rows.map fun row =>
      (Record.ofCells row).restrict (selectedBy s.columnCount selections) := by
    rw [hafter.alike.memoryRows, List.map_map]
    refine List.map_congr_left fun row hrow => ?_
    have hwidth : (Record.ofCells row).width = s.columnCount :=
      (List.length_map _).trans (hafter.alike.width row hrow)
    have hsame := hafter.alike.selected
    simp only at hsame
    rw [Function.comp_apply, MemorySource.present_eq_restrict, hwidth, hsame, selectedBy]
  have hdelivers := MemorySource.delivers_present hafter.alike.consistent
  rw [hnext, List.drop_zero, hpresent] at hdelivers
  exact hafter.delivers hdelivers

end FileSource

/-! ## The range of a split -/

/-- The row group behind the last one of a split of a file with a number of row groups. -/
def splitEnd (count start total : Nat) : Nat :=
  if total = 0 then count else min count (start + total)

/-- A split ends with the file at the latest. -/
theorem splitEnd_le (count start total : Nat) : splitEnd count start total ≤ count := by
  unfold splitEnd
  split
  · exact Nat.le_refl _
  · exact Nat.min_le_left _ _

namespace Word

/-- The range of a split that does not begin beyond the row groups, in numbers without bounds. -/
theorem groupRange?_nat {count start : Nat} (h : start ≤ count) (total : Nat) :
    groupRange? count start total = some (start, splitEnd count start total) := by
  have hstop : start + (if total = 0 then count - start else min total (count - start)) =
      splitEnd count start total := by
    unfold splitEnd
    split <;> omega
  unfold groupRange? Checked.sub? Checked.add? instCheckedNat
  simp only [if_pos h, Option.bind_eq_bind, Option.bind_some, hstop]
  rfl

/-- The range of a split that does not begin beyond the row groups is computed without going below
zero or beyond the words. -/
theorem groupRange?_eq {count start : UInt64} (h : start ≤ count) (total : UInt64) :
    groupRange? count start total =
      some (start, .ofNat (splitEnd count.toNat start.toNat total.toNat)) := by
  have hle : start.toNat ≤ count.toNat := UInt64.le_iff_toNat_le.1 h
  have hremaining : (count - start).toNat = count.toNat - start.toNat :=
    UInt64.toNat_sub_of_le _ _ h
  have hzero : total = 0 ↔ total.toNat = 0 := by
    rw [← UInt64.toNat_inj]
    rfl
  -- What is taken is at most what remains, so the sum is at most the number of row groups.
  have hstop :
      start.toNat + (if total = 0 then count - start else min total (count - start)).toNat =
        splitEnd count.toNat start.toNat total.toNat := by
    unfold splitEnd
    by_cases htotal : total = 0
    · rw [if_pos htotal, if_pos (hzero.1 htotal), hremaining]
      omega
    · rw [if_neg htotal, if_neg (mt hzero.2 htotal), UInt64.toNat_min, hremaining]
      omega
  have hword : splitEnd count.toNat start.toNat total.toNat < UInt64.size :=
    (splitEnd_le _ _ _).trans_lt count.toNat_lt
  unfold groupRange? Checked.sub? Checked.add? instCheckedUInt64
  simp only
  rw [if_pos h]
  simp only [Option.bind_eq_bind, Option.bind_some]
  rw [if_pos (hstop ▸ hword), ← hstop, UInt64.ofNat_add, UInt64.ofNat_toNat, UInt64.ofNat_toNat]
  rfl

end Word

/-- Stretches of a list that follow one another, up to the end, are the list from where the first
one starts. -/
theorem flatMap_extract {α : Type} (l : List α) {start : Nat} {cuts : List Nat}
    (hcuts : (start :: cuts).Pairwise (· < ·))
    (hlast : (start :: cuts).getLast? = some l.length) :
    (((start :: cuts).zip cuts).flatMap fun cut => l.extract cut.1 cut.2) = l.drop start := by
  induction cuts generalizing start with
  | nil =>
    have hstart : start = l.length := Option.some.inj hlast
    rw [hstart, List.drop_length]
    rfl
  | cons cut rest ih =>
    have hlt : start < cut := (List.pairwise_cons.1 hcuts).1 cut List.mem_cons_self
    -- The stretches after the first one are what is left when it is taken off.
    have hrest := ih (List.pairwise_cons.1 hcuts).2 (List.getLast?_cons_cons ▸ hlast)
    have hdrop : l.drop cut = (l.drop start).drop (cut - start) := by
      rw [List.drop_drop]
      congr 1
      omega
    rw [List.zip_cons_cons, List.flatMap_cons, hrest, hdrop, List.extract_eq_take_drop,
      List.take_append_drop]

/-- Of cuts that ascend up to an end, each is before the next, and none is behind the end. -/
theorem lt_of_mem_zip {start last : Nat} {cuts : List Nat}
    (hcuts : (start :: cuts).Pairwise (· < ·))
    (hlast : (start :: cuts).getLast? = some last) :
    ∀ cut ∈ (start :: cuts).zip cuts, cut.1 < cut.2 ∧ cut.2 ≤ last := by
  induction cuts generalizing start with
  | nil => exact fun cut hcut => absurd hcut List.not_mem_nil
  | cons next rest ih =>
    obtain ⟨hfirst, hrest⟩ := List.pairwise_cons.1 hcuts
    rw [List.getLast?_cons_cons] at hlast
    intro cut hcut
    rcases List.mem_cons.1 hcut with rfl | hcut
    · refine ⟨hfirst next List.mem_cons_self, ?_⟩
      rcases List.mem_cons.1 (List.mem_of_getLast? hlast) with rfl | hmem
      · exact Nat.le_refl _
      · exact Nat.le_of_lt ((List.pairwise_cons.1 hrest).1 last hmem)
    · exact ih hrest hlast cut hcut

namespace FileSource

/-- A split is refused if it begins beyond the row groups. Otherwise its row groups are those from
its first one up to its end. -/
theorem split_eq (file : ColumnFile) (options : ReadOptions) :
    split file options =
      if 0 < options.startRowGroup ∧ file.rowGroups.length ≤ options.startRowGroup then
        .error (.invalidRowGroup options.startRowGroup file.rowGroups.length)
      else
        .ok (file.rowGroups.extract options.startRowGroup
          (splitEnd file.rowGroups.length options.startRowGroup options.totalRowGroups)) := by
  unfold split
  simp only
  split
  · rfl
  · rw [Word.groupRange?_nat (by omega)]

/-- The columns of a table pass. -/
theorem checkColumns_of_isTable {file : ColumnFile} (h : file.IsTable) :
    checkColumns file.columns = .ok () := by
  unfold checkColumns
  rw [List.find?_eq_none.2 fun c hc => by simp [h.binary c hc]]

/-- A source of a split of a table reads the rows of the split's row groups. -/
theorem reads_openWith {file : ColumnFile} (h : file.IsTable) (batching : Batching)
    (options : ReadOptions)
    (hstart : ¬(0 < options.startRowGroup ∧ file.rowGroups.length ≤ options.startRowGroup)) :
    ∃ s, openWith batching file options = .ok s ∧ s.columnCount = file.columns.length ∧
      s.Reads (file.rowGroups.extract options.startRowGroup (splitEnd file.rowGroups.length
        options.startRowGroup options.totalRowGroups)).flatten := by
  generalize hgroups : file.rowGroups.extract options.startRowGroup
    (splitEnd file.rowGroups.length options.startRowGroup options.totalRowGroups) = groups
  have hsplit : split file options = .ok groups := by
    rw [split_eq, if_neg hstart, hgroups]
  have hopen : openWith batching file options = .ok
      ⟨batching, file.columns.length, file.metadata, groups.flatten,
        List.range file.columns.length, none, none, 0⟩ := by
    unfold openWith
    rw [checkColumns_of_isTable h, hsplit]
  have hwidth : ∀ row ∈ groups.flatten, row.length = file.columns.length := by
    intro row hrow
    obtain ⟨group, hgroup, hrow⟩ := List.mem_flatten.1 hrow
    rw [← hgroups, List.extract_eq_take_drop] at hgroup
    exact h.width row (List.mem_flatten.2
      ⟨group, List.mem_of_mem_drop (List.mem_of_mem_take hgroup), hrow⟩)
  refine ⟨_, hopen, rfl, Agrees.reads (t := ⟨file.columns.length,
    groups.flatten.map Record.ofCells, [], none, none, false⟩) ⟨⟨rfl, hwidth, rfl, rfl,
      List.pairwise_lt_range, fun c hc => List.mem_range.1 hc, rfl⟩, .before rfl rfl rfl rfl⟩
      rfl rfl⟩

/-- What the sources of splits deliver that follow one another up to the end of the file is together
what a source of the whole file delivers, and this is every row of the file. -/
theorem delivers_splits {file : ColumnFile} (h : file.IsTable) {cuts : List Nat}
    (hcuts : (0 :: cuts).Pairwise (· < ·))
    (hlast : (0 :: cuts).getLast? = some file.rowGroups.length) (batching : Nat → Batching)
    (batchSize : Nat → Nat) (selections : List (List Nat)) :
    ∃ records : List (List Record),
      List.Forall₂ (fun (cut : Nat × Nat) records =>
        ∃ s, openWith (batching cut.1) file ⟨cut.1, cut.2 - cut.1, batchSize cut.1⟩ = .ok s ∧
          Delivers (selectAll selections s) records) ((0 :: cuts).zip cuts) records ∧
      records.flatten = file.rowGroups.flatten.map fun row =>
        (Record.ofCells row).restrict (selectedBy file.columns.length selections) := by
  refine ⟨((0 :: cuts).zip cuts).map fun cut => (file.rowGroups.extract cut.1 cut.2).flatten.map
    fun row => (Record.ofCells row).restrict (selectedBy file.columns.length selections), ?_, ?_⟩
  · refine List.forall₂_map_right_iff.2 (List.forall₂_same.2 fun cut hcut => ?_)
    obtain ⟨hlt, hle⟩ := lt_of_mem_zip hcuts hlast cut hcut
    -- The split is not of all row groups that are left, as it has one at least.
    have hend : splitEnd file.rowGroups.length cut.1 (cut.2 - cut.1) = cut.2 := by
      rw [splitEnd, if_neg (by omega)]
      omega
    obtain ⟨s, hopen, hcount, hreads⟩ := reads_openWith h (batching cut.1)
      ⟨cut.1, cut.2 - cut.1, batchSize cut.1⟩ (by simp only; omega)
    simp only [hend] at hreads
    exact ⟨s, hopen, hcount ▸ hreads selections⟩
  · have hwhole := congrArg List.flatten (flatMap_extract file.rowGroups hcuts hlast)
    rw [List.drop_zero, List.flatMap_def, List.flatten_flatten, List.map_map] at hwhole
    rw [← hwhole, ← List.flatMap_def, ← List.map_flatMap, List.flatMap_def]
    rfl

/-- A source of a split of a table is refused exactly if the split begins beyond the row groups;
otherwise the range of its row groups is computed as of numbers without bounds, and it reads their
rows. So splits from the first row group on, each of which begins where the one before it ends, up
to the last row group, deliver together what a source of the whole file delivers, whatever batches
each of them reads. -/
theorem openWith_splits {file : ColumnFile} (h : file.IsTable)
    (hcount : file.rowGroups.length < UInt64.size) :
    (∀ (batching : Batching) (start total : UInt64) (batchSize : Nat),
      if 0 < start.toNat ∧ file.rowGroups.length ≤ start.toNat then
        openWith batching file ⟨start.toNat, total.toNat, batchSize⟩ =
          .error (.invalidRowGroup start.toNat file.rowGroups.length)
      else
        Word.groupRange? (.ofNat file.rowGroups.length) start total =
            some (start, .ofNat (splitEnd file.rowGroups.length start.toNat total.toNat)) ∧
          ∃ s, openWith batching file ⟨start.toNat, total.toNat, batchSize⟩ = .ok s ∧
            s.columnCount = file.columns.length ∧
            s.Reads (file.rowGroups.extract start.toNat
              (splitEnd file.rowGroups.length start.toNat total.toNat)).flatten) ∧
    ∀ (cuts : List Nat), (0 :: cuts).Pairwise (· < ·) →
      (0 :: cuts).getLast? = some file.rowGroups.length →
      ∀ (whole : Batching) (wholeSize : Nat) (batching : Nat → Batching) (batchSize : Nat → Nat)
        (selections : List (List Nat)),
        ∃ records : List (List Record),
          List.Forall₂ (fun (cut : Nat × Nat) records =>
            ∃ s, openWith (batching cut.1) file ⟨cut.1, cut.2 - cut.1, batchSize cut.1⟩ = .ok s ∧
              Delivers (selectAll selections s) records) ((0 :: cuts).zip cuts) records ∧
          ∃ s, openWith whole file ⟨0, 0, wholeSize⟩ = .ok s ∧
            Delivers (selectAll selections s) records.flatten := by
  refine ⟨fun batching start total batchSize => ?_, fun cuts hcuts hlast whole wholeSize batching
    batchSize selections => ?_⟩
  · split
    · rename_i hstart
      unfold openWith
      rw [checkColumns_of_isTable h, split_eq, if_pos hstart]
    · rename_i hstart
      have hle : start ≤ UInt64.ofNat file.rowGroups.length := by
        rw [UInt64.le_iff_toNat_le, UInt64.toNat_ofNat_of_lt' hcount]
        omega
      have hrange := Word.groupRange?_eq hle total
      rw [UInt64.toNat_ofNat_of_lt' hcount] at hrange
      exact ⟨hrange, reads_openWith h batching _ hstart⟩
  · obtain ⟨records, hrecords, hflatten⟩ :=
      delivers_splits h hcuts hlast batching batchSize selections
    obtain ⟨s, hopen, hcolumns, hreads⟩ :=
      reads_openWith h whole ⟨0, 0, wholeSize⟩ (by simp)
    have hall : file.rowGroups.extract 0 (splitEnd file.rowGroups.length 0 0) =
        file.rowGroups := by
      rw [List.extract_eq_take_drop, splitEnd, if_pos rfl, List.drop_zero, Nat.sub_zero,
        List.take_length]
    have hdelivers := hreads selections
    rw [hcolumns, hall, ← hflatten] at hdelivers
    exact ⟨records, hrecords, s, hopen, hdelivers⟩

/-- The second split of the sample table delivers its last row, also if more row groups were asked
for than fit in the words from there on. -/
theorem openWith_splits_sampleTable :
    sampleTable.IsTable ∧ sampleTable.rowGroups.length < UInt64.size ∧
      (∃ s, openWith (.ofSize 1) sampleTable ⟨1, 18446744073709551615, 1⟩ = .ok s ∧
        Delivers s [⟨[[], [3]]⟩]) ∧
      openWith (.ofSize 1) sampleTable ⟨2, 0, 1⟩ = .error (.invalidRowGroup 2 2) ∧
      ∃ records, List.Forall₂ (fun (cut : Nat × Nat) records =>
          ∃ s, openWith (.ofSize cut.1) sampleTable ⟨cut.1, cut.2 - cut.1, cut.1⟩ = .ok s ∧
            Delivers (selectAll [[1]] s) records) [(0, 1), (1, 2)] records ∧
        ∃ s, openWith (.ofSize 3) sampleTable ⟨0, 0, 3⟩ = .ok s ∧
          Delivers (selectAll [[1]] s) records.flatten := by
  have htable : sampleTable.IsTable := ⟨by decide, by decide⟩
  have hcount : sampleTable.rowGroups.length < UInt64.size := by decide
  obtain ⟨hsplit, hsplits⟩ := openWith_splits htable hcount
  refine ⟨htable, hcount, ?_, ?_, ?_⟩
  · obtain ⟨-, s, hopen, hcolumns, hreads⟩ := hsplit (.ofSize 1) 1 18446744073709551615 1
    have hdelivers := hreads []
    rw [hcolumns] at hdelivers
    exact ⟨s, hopen, hdelivers⟩
  · exact hsplit (.ofSize 1) 2 0 1
  · exact hsplits [1, 2] (by decide) rfl (.ofSize 3) 3 (fun first => .ofSize first)
      (fun first => first) [[1]]

end FileSource

end ColumnarRecords

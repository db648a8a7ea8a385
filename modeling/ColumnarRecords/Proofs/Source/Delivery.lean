import ColumnarRecords.Proofs.Reader.Draining
import ColumnarRecords.Proofs.Source.Interchange

/-!
# Which rows in memory are delivered

Rows may be put into memory at any time, also while they are read. `MemorySource.InTurn` says that
a run delivers every row once and in turn. `delivery_of_prepared` says what any run delivers: the
rows in the order in which they were put in, none of them twice, and all up to where the source
stands but those that came first after an advance had found no row. Such a row is passed over, as
the place behind the last row is a number of rows, and the row takes this place. A run in which no
row is put in after an advance has found none is therefore in turn, and others are not
(`not_inTurn_lateRows`).

The place is followed by `nextPosition`, the position that an advance goes to if there is a row.
Each use moves it on or leaves it (`delivered_eq`, `length_lt_nextPosition_iff`), so the statements
on runs are by induction on the uses, for a source that stands anywhere.
-/

namespace ColumnarRecords

open ColumnSource

namespace MemorySource

/-- What may be done with rows in memory. -/
inductive Use where
  /-- A further row is put in. -/
  | push (row : Record)
  /-- A call as of any source. -/
  | call (call : Call)
deriving DecidableEq, Repr

/-- The source after a use. A row that is refused leaves it as it is. -/
def use (t : MemorySource) : Use → MemorySource
  | .push row => (t.push row).toOption.getD t
  | .call call => (exchange call t).2

/-- The source after uses one after another. -/
def useAll (t : MemorySource) (uses : List Use) : MemorySource := uses.foldl use t

/-- The rows that uses put into a source of as many columns; those of another width are refused. -/
def pushed (columnCount : Nat) (uses : List Use) : List Record :=
  uses.filterMap fun
    | .push row => if row.width = columnCount then some row else none
    | .call _ => none

/-- The position of the row that a use delivers: an advance that finds a row stands at it. -/
def delivers? (t : MemorySource) : Use → Option Nat
  | .call .advance =>
    match t.advance with
    | (.ok true, t) => t.position
    | _ => none
  | _ => none

/-- The number of rows that were there when a use found no row. -/
def ends? (t : MemorySource) : Use → Option Nat
  | .call .advance =>
    match t.advance with
    | (.ok false, t) => some t.rows.length
    | _ => none
  | _ => none

/-- What is known of each use, of all uses in turn. -/
def gather {α : Type} (f : MemorySource → Use → Option α) : MemorySource → List Use → List α
  | _, [] => []
  | t, u :: rest => (f t u).toList ++ gather f (t.use u) rest

/-- The positions of the rows that uses deliver. -/
def delivered : MemorySource → List Use → List Nat := gather delivers?

/-- How many rows there were at each advance that found no row. -/
def ended : MemorySource → List Use → List Nat := gather ends?

/-- A run delivers every row once and in turn. -/
structure InTurn (t : MemorySource) (uses : List Use) : Prop where
  /-- The `k`th advance that finds a row stands at the `k`th row. -/
  turn : t.delivered uses = List.range (t.delivered uses).length
  /-- This row is then the current one. -/
  presented : ∀ earlier, uses = earlier ++ [.call .advance] →
    (t.useAll earlier).advance.1 = .ok true →
    ∃ row, (t.rows ++ pushed t.columnCount uses)[(t.delivered earlier).length]? = some row ∧
      (t.useAll uses).current? = some ((t.useAll uses).present row)
  /-- An advance finds a row as long as there is one that was not delivered. -/
  progress : (t.delivered uses).length < (t.rows ++ pushed t.columnCount uses).length →
    (t.useAll uses).advance.1 = .ok true
  /-- After an advance that found no row there is no current one until another finds one. -/
  silent : ∀ earlier later, uses = earlier ++ .call .advance :: later →
    (t.useAll earlier).advance.1 = .ok false →
    ((t.useAll earlier).use (.call .advance)).delivered later = [] →
    (t.useAll uses).current? = none

/-! ## What a use can do -/

/-- What a use does to the place of the source and to its rows. -/
inductive Step (t : MemorySource) (u : Use) : Prop where
  /-- It delivers the next row. -/
  | found (hmore : t.nextPosition < t.rows.length) (hdelivers : t.delivers? u = some t.nextPosition)
    (hends : t.ends? u = none) (hnext : (t.use u).nextPosition = t.nextPosition + 1)
    (hrows : (t.use u).rows = t.rows)
  /-- It goes behind the last row. -/
  | none (hmore : t.rows.length ≤ t.nextPosition) (hdelivers : t.delivers? u = .none)
    (hends : t.ends? u = some t.rows.length) (hnext : (t.use u).nextPosition = t.rows.length + 1)
    (hrows : (t.use u).rows = t.rows)
  /-- It leaves the source where it is, and puts in a row at most. -/
  | stays (hdelivers : t.delivers? u = .none) (hends : t.ends? u = .none)
    (hnext : (t.use u).nextPosition = t.nextPosition)
    (hrows : t.rows.length ≤ (t.use u).rows.length)

/-- A row that is put in is the last one. A row of another width is not put in. -/
theorem use_push (t : MemorySource) (row : Record) :
    t.use (.push row) =
      if row.width = t.columnCount then { t with rows := t.rows ++ [row] } else t := by
  show (t.push row).toOption.getD t = _
  unfold MemorySource.push
  split <;> rfl

/-- A selection of columns changes nothing else. -/
theorem eq_use_selectColumns (t : MemorySource) (columns : List Nat) :
    ∃ selected, t.use (.call (.selectColumns columns)) = { t with selected := selected } := by
  show ∃ selected, (t.selectColumns columns).2 = { t with selected := selected }
  obtain ⟨e, hrefused⟩ | ⟨-, htaken⟩ := t.selectColumns_cases columns
  · rw [hrefused]
    exact ⟨t.selected, rfl⟩
  · rw [htaken]
    exact ⟨some columns, rfl⟩

/-- An advance moves the source and starts it, and changes nothing else. -/
theorem eq_use_advance (t : MemorySource) :
    ∃ position, t.use (.call .advance) = { t with position := position, started := true } := by
  show ∃ position, t.advance.2 = { t with position := position, started := true }
  rcases Nat.lt_or_ge t.nextPosition t.rows.length with hmore | hmore
  · rw [advance_of_lt hmore]
    exact ⟨some t.nextPosition, rfl⟩
  · rw [advance_of_le hmore]
    exact ⟨some t.rows.length, rfl⟩

/-- A use does one of these. -/
theorem step_use (t : MemorySource) (u : Use) : t.Step u := by
  match u with
  | .push row =>
    refine .stays rfl rfl ?_ ?_
    · rw [use_push]
      split <;> rfl
    · rw [use_push]
      split
      · rw [List.length_append]
        exact Nat.le_add_right _ _
      · exact Nat.le_refl _
  | .call .columnCount => exact .stays rfl rfl rfl (Nat.le_refl _)
  | .call .current => exact .stays rfl rfl rfl (Nat.le_refl _)
  | .call (.selectColumns columns) =>
    obtain ⟨selected, hselected⟩ := t.eq_use_selectColumns columns
    refine .stays rfl rfl ?_ ?_
    · rw [hselected]
      rfl
    · rw [hselected]
  | .call .advance =>
    have huse : t.use (.call .advance) = t.advance.2 := rfl
    rcases Nat.lt_or_ge t.nextPosition t.rows.length with hmore | hmore
    · have hadvance := advance_of_lt hmore
      refine .found hmore ?_ ?_ ?_ ?_
      · simp only [delivers?, hadvance]
      · simp only [ends?, hadvance]
      · rw [huse, hadvance]
        rfl
      · rw [huse, hadvance]
    · have hadvance := advance_of_le hmore
      refine .none hmore ?_ ?_ ?_ ?_
      · simp only [delivers?, hadvance]
      · simp only [ends?, hadvance]
      · rw [huse, hadvance]
        rfl
      · rw [huse, hadvance]

/-- A use keeps the number of columns. -/
theorem columnCount_use (t : MemorySource) (u : Use) : (t.use u).columnCount = t.columnCount := by
  match u with
  | .push row =>
    rw [use_push]
    split <;> rfl
  | .call .columnCount => rfl
  | .call .current => rfl
  | .call (.selectColumns columns) =>
    obtain ⟨selected, hselected⟩ := t.eq_use_selectColumns columns
    rw [hselected]
  | .call .advance =>
    obtain ⟨position, hposition⟩ := t.eq_use_advance
    rw [hposition]

/-- A use puts in its row, if this is wide enough. -/
theorem rows_use (t : MemorySource) (u : Use) :
    (t.use u).rows = t.rows ++ pushed t.columnCount [u] := by
  match u with
  | .push row =>
    rw [use_push]
    unfold pushed
    by_cases hwidth : row.width = t.columnCount <;> simp [hwidth]
  | .call .columnCount => exact (List.append_nil _).symm
  | .call .current => exact (List.append_nil _).symm
  | .call (.selectColumns columns) =>
    obtain ⟨selected, hselected⟩ := t.eq_use_selectColumns columns
    rw [hselected]
    exact (List.append_nil _).symm
  | .call .advance =>
    obtain ⟨position, hposition⟩ := t.eq_use_advance
    rw [hposition]
    exact (List.append_nil _).symm

/-! ## What a run does -/

/-- Uses after other uses are of the source that these leave. -/
theorem useAll_append (t : MemorySource) (earlier later : List Use) :
    t.useAll (earlier ++ later) = (t.useAll earlier).useAll later :=
  List.foldl_append

/-- A use keeps what was checked. -/
theorem Consistent.use {t : MemorySource} (h : t.Consistent) (u : Use) : (t.use u).Consistent := by
  match u with
  | .push row =>
    rw [use_push]
    split
    · rename_i hwidth
      exact h.push hwidth
    · exact h
  | .call .columnCount => exact h
  | .call .current => exact h
  | .call (.selectColumns columns) =>
    show (t.selectColumns columns).2.Consistent
    obtain ⟨e, hrefused⟩ | ⟨hcheck, htaken⟩ := t.selectColumns_cases columns
    · rw [hrefused]
      exact h
    · rw [htaken]
      exact h.select hcheck
  | .call .advance =>
    obtain ⟨position, hposition⟩ := t.eq_use_advance
    rw [hposition]
    exact { h with }

/-- Uses keep what was checked. -/
theorem Consistent.useAll {t : MemorySource} (h : t.Consistent) (uses : List Use) :
    (t.useAll uses).Consistent := by
  induction uses generalizing t with
  | nil => exact h
  | cons u rest ih => exact ih (h.use u)

/-- What is known of uses and of those after them. -/
theorem gather_append {α : Type} (f : MemorySource → Use → Option α) (t : MemorySource)
    (earlier later : List Use) :
    gather f t (earlier ++ later) = gather f t earlier ++ gather f (t.useAll earlier) later := by
  induction earlier generalizing t with
  | nil => rfl
  | cons u rest ih =>
    rw [List.cons_append, gather, gather, ih, List.append_assoc]
    rfl

/-- The rows after uses are those before and those put in. -/
theorem rows_useAll (t : MemorySource) (uses : List Use) :
    (t.useAll uses).rows = t.rows ++ pushed t.columnCount uses := by
  induction uses generalizing t with
  | nil => exact (List.append_nil _).symm
  | cons u rest ih =>
    have hrest := ih (t.use u)
    rw [rows_use, columnCount_use, List.append_assoc] at hrest
    have hpushed : pushed t.columnCount (u :: rest) =
        pushed t.columnCount [u] ++ pushed t.columnCount rest := by
      unfold pushed
      rw [← List.singleton_append, List.filterMap_append]
    rw [hpushed]
    exact hrest

/-- Uses do not take rows away. -/
theorem length_rows_le (t : MemorySource) (uses : List Use) :
    t.rows.length ≤ (t.useAll uses).rows.length := by
  rw [rows_useAll, List.length_append]
  exact Nat.le_add_right _ _

/-- A use leaves the source among its rows or right behind them. -/
theorem nextPosition_use_le {t : MemorySource} (h : t.nextPosition ≤ t.rows.length + 1) (u : Use) :
    (t.use u).nextPosition ≤ (t.use u).rows.length + 1 := by
  cases t.step_use u with
  | found hmore hdelivers hends hnext hrows =>
    rw [hnext, hrows]
    omega
  | none hmore hdelivers hends hnext hrows => rw [hnext, hrows]
  | stays hdelivers hends hnext hrows =>
    rw [hnext]
    omega

/-- Uses leave the source among its rows or right behind them. -/
theorem nextPosition_useAll_le {t : MemorySource} (h : t.nextPosition ≤ t.rows.length + 1)
    (uses : List Use) : (t.useAll uses).nextPosition ≤ (t.useAll uses).rows.length + 1 := by
  induction uses generalizing t with
  | nil => exact h
  | cons u rest ih => exact ih (nextPosition_use_le h u)

/-- A use does not move the source back. -/
theorem nextPosition_le_use {t : MemorySource} (h : t.nextPosition ≤ t.rows.length + 1) (u : Use) :
    t.nextPosition ≤ (t.use u).nextPosition := by
  cases t.step_use u with
  | found hmore hdelivers hends hnext hrows => omega
  | none hmore hdelivers hends hnext hrows => omega
  | stays hdelivers hends hnext hrows => omega

/-- Uses do not move the source back. -/
theorem nextPosition_le_useAll {t : MemorySource} (h : t.nextPosition ≤ t.rows.length + 1)
    (uses : List Use) : t.nextPosition ≤ (t.useAll uses).nextPosition := by
  induction uses generalizing t with
  | nil => exact Nat.le_refl _
  | cons u rest ih => exact (nextPosition_le_use h u).trans (ih (nextPosition_use_le h u))

/-- An advance that found no row found at least the rows from before. -/
theorem length_rows_le_of_mem_ended {t : MemorySource} {uses : List Use} {n : Nat}
    (h : n ∈ t.ended uses) : t.rows.length ≤ n := by
  induction uses generalizing t with
  | nil => exact absurd h List.not_mem_nil
  | cons u rest ih =>
    have hmore := t.length_rows_le [u]
    rcases List.mem_append.1 h with hfirst | hrest
    · cases t.step_use u with
      | none _ _ hends _ _ =>
        rw [hends] at hfirst
        exact (List.mem_singleton.1 hfirst).ge
      | found _ _ hends _ _ | stays _ hends _ _ =>
        rw [hends] at hfirst
        exact absurd hfirst List.not_mem_nil
    · exact hmore.trans (ih hrest)

/-- Uses deliver the rows from where the source stands to where they leave it, in this order, but
those that took the place behind the last row after an advance had gone there. -/
theorem delivered_eq {t : MemorySource} (h : t.nextPosition ≤ t.rows.length + 1)
    (uses : List Use) :
    t.delivered uses = (List.range' t.nextPosition
      ((t.useAll uses).nextPosition - t.nextPosition)).filter (· ∉ t.ended uses) := by
  induction uses generalizing t with
  | nil =>
    rw [show (t.useAll []).nextPosition - t.nextPosition = 0 from Nat.sub_self _]
    rfl
  | cons u rest ih =>
    have hrest := ih (nextPosition_use_le h u)
    have hreach := nextPosition_le_useAll (nextPosition_use_le h u) rest
    have hused : t.useAll (u :: rest) = (t.use u).useAll rest := rfl
    have hdelivered : t.delivered (u :: rest) =
        (t.delivers? u).toList ++ (t.use u).delivered rest := rfl
    have hended : t.ended (u :: rest) = (t.ends? u).toList ++ (t.use u).ended rest := rfl
    rw [hused, hdelivered, hended, hrest]
    cases t.step_use u with
    | found hmore hdelivers hends hnext hrows =>
      -- No advance goes to a place that has a row, so the row is not passed over.
      have hnot : t.nextPosition ∉ (t.use u).ended rest := by
        intro hmem
        have := length_rows_le_of_mem_ended hmem
        rw [hrows] at this
        omega
      rw [hnext] at hreach ⊢
      obtain ⟨m, hm⟩ := Nat.exists_eq_add_of_le hreach
      rw [hm, hdelivers, hends, show t.nextPosition + 1 + m - t.nextPosition = m + 1 by omega,
        show t.nextPosition + 1 + m - (t.nextPosition + 1) = m by omega, List.range'_succ,
        Option.toList_none, List.nil_append, List.filter_cons_of_pos (by simpa using hnot)]
      rfl
    | stays hdelivers hends hnext hrows =>
      rw [hdelivers, hends, hnext]
      rfl
    | none hmore hdelivers hends hnext hrows =>
      rw [hdelivers, hends, hnext, Option.toList_none, Option.toList_some, List.nil_append]
      rw [hnext] at hreach
      obtain ⟨m, hm⟩ := Nat.exists_eq_add_of_le hreach
      -- The rows to come are behind the place that is passed over.
      have hlater : (List.range' (t.rows.length + 1) m).filter (· ∉ (t.use u).ended rest) =
          (List.range' (t.rows.length + 1) m).filter
            (· ∉ [t.rows.length] ++ (t.use u).ended rest) := by
        refine List.filter_congr fun i hi => ?_
        have hne : i ≠ t.rows.length := by
          have := List.mem_range'_1.1 hi
          omega
        simp [hne]
      rw [hm, show t.rows.length + 1 + m - (t.rows.length + 1) = m by omega, hlater]
      rcases Nat.eq_or_lt_of_le hmore with heq | hlt
      · rw [← heq, show t.rows.length + 1 + m - t.rows.length = m + 1 by omega, List.range'_succ]
        simp
      · have heq : t.nextPosition = t.rows.length + 1 := by omega
        rw [heq, show t.rows.length + 1 + m - (t.rows.length + 1) = m by omega]

/-- A source is behind its last row exactly if an advance has gone there, or if it was there before
and no row was put in. -/
theorem length_lt_nextPosition_iff {t : MemorySource} (h : t.nextPosition ≤ t.rows.length + 1)
    (uses : List Use) :
    (t.useAll uses).rows.length < (t.useAll uses).nextPosition ↔
      (t.useAll uses).rows.length ∈ t.ended uses ∨
        (t.useAll uses).rows.length < t.nextPosition := by
  induction uses generalizing t with
  | nil => exact (or_iff_right List.not_mem_nil).symm
  | cons u rest ih =>
    have hrest := ih (nextPosition_use_le h u)
    have hmore := (t.use u).length_rows_le rest
    have hused : t.useAll (u :: rest) = (t.use u).useAll rest := rfl
    have hended : t.ended (u :: rest) = (t.ends? u).toList ++ (t.use u).ended rest := rfl
    rw [hused, hended, hrest, List.mem_append]
    cases t.step_use u with
    | found hlt hdelivers hends hnext hrows =>
      rw [hends, hnext, Option.toList_none, or_iff_right List.not_mem_nil]
      rw [hrows] at hmore
      exact or_congr_right ⟨fun hlate => by omega, fun hlate => by omega⟩
    | none hle hdelivers hends hnext hrows =>
      rw [hends, hnext, Option.toList_some, List.mem_singleton]
      rw [hrows] at hmore
      have hplace : ((t.use u).useAll rest).rows.length < t.rows.length + 1 ↔
          ((t.use u).useAll rest).rows.length = t.rows.length := by omega
      have hbefore : ((t.use u).useAll rest).rows.length < t.nextPosition →
          ((t.use u).useAll rest).rows.length = t.rows.length := by omega
      tauto
    | stays hdelivers hends hnext hrows =>
      rw [hends, hnext, Option.toList_none]
      simp

/-! ## Runs from the start -/

/-- The row that a source stands at is the one before the position that comes next. -/
theorem Consistent.current?_eq_ite {t : MemorySource} (h : t.Consistent) :
    t.current? = if t.nextPosition = 0 then none
      else (t.rows[t.nextPosition - 1]?).map t.present := by
  rw [h.current?_eq]
  unfold nextPosition
  cases t.position with
  | none => rfl
  | some p => rfl

/-- An advance finds a row exactly if there is one at the position that comes next. -/
theorem advance_eq_ok_true_iff (t : MemorySource) :
    t.advance.1 = .ok true ↔ t.nextPosition < t.rows.length := by
  rcases Nat.lt_or_ge t.nextPosition t.rows.length with hmore | hmore
  · rw [advance_of_lt hmore]
    exact iff_of_true rfl hmore
  · rw [advance_of_le hmore]
    exact iff_of_false (by simp) (Nat.not_lt.2 hmore)

/-- What uses of a source that stood before its first row deliver. -/
structure Delivery (t : MemorySource) (uses : List Use) : Prop where
  /-- The rows are those before and those put in. -/
  rows : (t.useAll uses).rows = t.rows ++ pushed t.columnCount uses
  /-- The rows up to where the source stands were delivered in turn, each once, but for those that
  were put in first after an advance had found no row. -/
  delivered : t.delivered uses =
    (List.range (t.useAll uses).nextPosition).filter (· ∉ t.ended uses)
  /-- The source stands among its rows, or behind them by one if an advance has gone there. -/
  reach : (t.useAll uses).nextPosition ≤ (t.useAll uses).rows.length + 1 ∧
    ((t.useAll uses).rows.length < (t.useAll uses).nextPosition ↔
      (t.useAll uses).rows.length ∈ t.ended uses)
  /-- An advance finds a row exactly if there is one at the position that comes next. -/
  advance : (t.useAll uses).advance.1 = .ok true ↔
    (t.useAll uses).nextPosition < (t.useAll uses).rows.length
  /-- The current row is the one before this position. -/
  current : (t.useAll uses).current? = if (t.useAll uses).nextPosition = 0 then none
    else ((t.useAll uses).rows[(t.useAll uses).nextPosition - 1]?).map (t.useAll uses).present
  /-- If no row was put in after an advance had found none, the run is in turn. -/
  inTurn : (∀ n ∈ t.ended uses, n = (t.useAll uses).rows.length) → t.InTurn uses

variable {t : MemorySource} {uses : List Use}

/-- Of a source that stood before its first row, and into which no row was put after an advance had
found none, all rows were delivered up to where it stands. -/
theorem delivered_eq_range (h : t.nextPosition = 0)
    (hended : ∀ n ∈ t.ended uses, n = (t.useAll uses).rows.length) :
    t.delivered uses =
      List.range (min (t.useAll uses).nextPosition (t.useAll uses).rows.length) := by
  have hwithin : t.nextPosition ≤ t.rows.length + 1 := by omega
  have hreach := nextPosition_useAll_le hwithin uses
  have hbehind := length_lt_nextPosition_iff hwithin uses
  have hdelivered := delivered_eq hwithin uses
  rw [h, Nat.sub_zero, ← List.range_eq_range'] at hdelivered
  rw [h, or_iff_left (Nat.not_lt_zero _)] at hbehind
  -- No row up to the last has the place that an advance has gone to.
  have hkeep : ∀ i < (t.useAll uses).rows.length, i ∉ t.ended uses := by
    intro i hi hmem
    have := hended i hmem
    omega
  rw [hdelivered]
  rcases Nat.lt_or_ge (t.useAll uses).rows.length (t.useAll uses).nextPosition with hlt | hle
  · have hnext : (t.useAll uses).nextPosition = (t.useAll uses).rows.length + 1 := by omega
    have hmem := hbehind.1 hlt
    rw [hnext, List.range_succ, List.filter_append, Nat.min_eq_right (Nat.le_succ _)]
    rw [List.filter_cons_of_neg (by simpa using hmem), List.filter_nil, List.append_nil]
    refine List.filter_eq_self.2 fun i hi => ?_
    exact decide_eq_true (hkeep i (List.mem_range.1 hi))
  · rw [Nat.min_eq_left hle]
    refine List.filter_eq_self.2 fun i hi => ?_
    exact decide_eq_true (hkeep i ((List.mem_range.1 hi).trans_le hle))

/-- A run is in turn if no row was put in after an advance had found none. -/
theorem inTurn_of_ended (hconsistent : t.Consistent) (h : t.nextPosition = 0)
    (hended : ∀ n ∈ t.ended uses, n = (t.useAll uses).rows.length) : t.InTurn uses := by
  have hwithin : t.nextPosition ≤ t.rows.length + 1 := by omega
  have hreach := nextPosition_useAll_le hwithin uses
  have hdelivered := delivered_eq_range h hended
  refine ⟨?_, ?_, ?_, ?_⟩
  · rw [hdelivered, List.length_range]
  · intro earlier huses hfound
    subst huses
    have hlt := (advance_eq_ok_true_iff _).1 hfound
    have hafter : t.useAll (earlier ++ [.call .advance]) = (t.useAll earlier).advance.2 :=
      t.useAll_append earlier _
    rw [advance_of_lt hlt] at hafter
    -- The rows before were delivered, so the next one is the first that was not.
    have hbefore : t.delivered earlier = List.range (t.useAll earlier).nextPosition := by
      have hsame : (t.useAll (earlier ++ [.call .advance])).rows = (t.useAll earlier).rows := by
        rw [hafter]
      have hprefix : ∀ n ∈ t.ended earlier, n = (t.useAll earlier).rows.length := by
        intro n hn
        rw [← hsame]
        refine hended n ?_
        rw [ended, gather_append]
        exact List.mem_append_left _ hn
      rw [delivered_eq_range h hprefix, Nat.min_eq_left (Nat.le_of_lt hlt)]
    refine ⟨(t.useAll earlier).rows[(t.useAll earlier).nextPosition], ?_, ?_⟩
    · rw [← rows_useAll, hafter, hbefore, List.length_range]
      exact List.getElem?_eq_getElem hlt
    · rw [(hconsistent.useAll _).current?_eq, hafter]
      simp only [List.getElem?_eq_getElem hlt, Option.map_some]
  · intro hmore
    rw [← rows_useAll, hdelivered, List.length_range] at hmore
    exact (advance_eq_ok_true_iff _).2 (by omega)
  · intro earlier later huses hnone _
    have hle : (t.useAll earlier).rows.length ≤ (t.useAll earlier).nextPosition := by
      have hnot := mt (advance_eq_ok_true_iff (t.useAll earlier)).2 (by rw [hnone]; simp)
      omega
    have hends : (t.useAll earlier).ends? (.call .advance) =
        some (t.useAll earlier).rows.length := by
      simp only [ends?, advance_of_le hle]
    -- The advance went behind the last row, and there is no further one.
    have hmem : (t.useAll earlier).rows.length ∈ t.ended uses := by
      rw [huses, ended, gather_append, gather, hends]
      simp
    have hlength := hended _ hmem
    rw [hlength] at hmem
    have hbehind := (length_lt_nextPosition_iff hwithin uses).2 (.inl hmem)
    rw [(hconsistent.useAll uses).current?_eq_ite, if_neg (by omega),
      List.getElem?_eq_none (by omega)]
    rfl

/-- Of rows in memory, whatever is done with them, an advance delivers the row at the position that
comes next. All rows up to there were delivered in turn, each once, but for those that were put in
first after an advance had found no row; and if there are none of these the run is in turn. -/
theorem delivery_of_prepared (h : t.Prepared) (uses : List Use) : t.Delivery uses := by
  have hstart : t.nextPosition = 0 := by
    rw [nextPosition, h.position_eq_none]
    rfl
  have hwithin : t.nextPosition ≤ t.rows.length + 1 := by omega
  have hdelivered := delivered_eq hwithin uses
  have hbehind := length_lt_nextPosition_iff hwithin uses
  rw [hstart, Nat.sub_zero, ← List.range_eq_range'] at hdelivered
  rw [hstart, or_iff_left (Nat.not_lt_zero _)] at hbehind
  exact ⟨t.rows_useAll uses, hdelivered, ⟨nextPosition_useAll_le hwithin uses, hbehind⟩,
    advance_eq_ok_true_iff _, (h.consistent.useAll uses).current?_eq_ite,
    inTurn_of_ended h.consistent hstart⟩

/-- Uses that ask for a row of none, put in two and ask again. -/
def lateRows : List Use :=
  [.call .advance, .push ⟨[[97]]⟩, .push ⟨[[98]]⟩, .call .advance]

/-- Of two rows that are put in after an advance has found none, the first is not delivered. -/
theorem delivery_lateRows :
    (ofWidth 1).Prepared ∧ (ofWidth 1).delivered lateRows = [1] ∧
      ((ofWidth 1).useAll lateRows).current? = some ⟨[[98]]⟩ := by
  have hdelivery := delivery_of_prepared (.ofWidth 1) lateRows
  refine ⟨.ofWidth 1, ?_, ?_⟩
  · rw [hdelivery.delivered]
    decide
  · rw [hdelivery.current]
    decide

/-- A run that puts in rows after an advance has found none need not be in turn: the first such row
is current without an advance that found it, the next advance does not find it, and if there is a
second row it finds that one instead. -/
theorem not_inTurn_lateRows :
    (ofWidth 1).Prepared ∧ ¬(ofWidth 1).InTurn lateRows ∧
      ((ofWidth 1).useAll (lateRows.take 2)).current? = some ⟨[[97]]⟩ ∧
      ((ofWidth 1).useAll (lateRows.take 2)).advance.1 = .ok false := by
  refine ⟨.ofWidth 1, fun h => ?_, rfl, rfl⟩
  have hturn := h.turn
  revert hturn
  decide

end MemorySource

end ColumnarRecords

import ColumnarRecords.Proofs.Source.Delivery

/-!
# Selected columns of rows in memory

What a source in memory presents depends on two checks that were made long before: every row that
was put in is as wide as the source, and every selection that was taken ascends and names columns
that are there (`MemorySource.Consistent`). Each use keeps both (`MemorySource.Consistent.use`),
also one that is refused, since this changes nothing. So a record can be put together at any time
without a column being asked for that is not there (`MemorySource.Consistent.assemble?_eq_some`), and
`MemorySource.selecting_of_prepared` says what it holds: the bytes of the row in the columns that
were selected last, which are all at first, and nothing in the others.
-/

namespace ColumnarRecords

open ColumnSource

/-- What came of a call, as far as it can fail. -/
def ColumnSource.Exchange.outcome : Exchange → Except ReadError Unit
  | .columnCount _ => .ok ()
  | .selectColumns _ answer => answer
  | .advance answer => answer.map fun _ => ()
  | .current answer => answer.map fun _ => ()

namespace MemorySource

/-- What comes of a use in place, as far as it can be refused, and the source after it. -/
def attempt (t : MemorySource) : Use → Except ReadError Unit × MemorySource
  | .push row =>
    match pushInto row t with
    | .ok () t => (.ok (), t)
    | .error e t => (.error e, t)
  | .call call => ((exchange call t).1.outcome, (exchange call t).2)

/-- The columns that a use selects, if it is taken. -/
def selects? (t : MemorySource) : Use → Option (List Nat)
  | .call (.selectColumns columns) =>
    match (t.selectColumns columns).1 with
    | .ok () => some columns
    | .error _ => none
  | _ => none

/-- What a source presents, and what it does when a use is refused. -/
structure Selecting (t : MemorySource) : Prop extends Consistent t where
  /-- In place a use leaves the source that a run goes on with. -/
  inPlace : ∀ u, (t.attempt u).2 = t.use u
  /-- A use that is refused changes nothing. -/
  refused : ∀ u e, (t.attempt u).1 = .error e → (t.attempt u).2 = t
  /-- At a row the record can be put together, and this is the current one. -/
  assembled : ∀ p row, t.position = some p → t.rows[p]? = some row →
    ∃ r, t.assemble? row = some r ∧ t.current? = some r
  /-- The current record is as wide as the source. It has the bytes of the row that the source
  stands at in the selected columns, which are all if there never was a selection, and nothing in
  the others. -/
  presented : ∀ r, t.current? = some r → r.width = t.columnCount ∧
    ∃ p row, t.position = some p ∧ t.rows[p]? = some row ∧
      ∀ i < t.columnCount,
        r.column? i = if ∀ columns ∈ t.selected, i ∈ columns then row.column? i else some []

variable {t : MemorySource}

/-! ## What a use does to rows and selection -/

/-- In place a use leaves the source that it leaves otherwise. -/
theorem attempt_snd (t : MemorySource) (u : Use) : (t.attempt u).2 = t.use u := by
  cases u with
  | push row =>
    show _ = (t.push row).toOption.getD t
    rw [attempt, pushInto_eq]
    cases t.push row <;> rfl
  | call call => rfl

/-- A use that is refused changes nothing. -/
theorem attempt_of_error {u : Use} {e : ReadError} (h : (t.attempt u).1 = .error e) :
    (t.attempt u).2 = t := by
  match u with
  | .push row =>
    rw [attempt, pushInto_eq] at h ⊢
    cases hpush : t.push row with
    | ok t' =>
      rw [hpush] at h
      cases h
    | error e => rfl
  | .call .columnCount => rfl
  | .call .current => rfl
  | .call (.selectColumns columns) =>
    have hanswer : (t.selectColumns columns).1 = .error e := h
    show (t.selectColumns columns).2 = t
    obtain ⟨e, hrefused⟩ | ⟨-, htaken⟩ := t.selectColumns_cases columns
    · rw [hrefused]
    · rw [htaken] at hanswer
      cases hanswer
  | .call .advance =>
    have hanswer : (t.advance.1.map fun _ => ()) = .error e := h
    rcases Nat.lt_or_ge t.nextPosition t.rows.length with hmore | hmore
    · rw [advance_of_lt hmore] at hanswer
      cases hanswer
    · rw [advance_of_le hmore] at hanswer
      cases hanswer

/-- After a use the columns are selected that it selects, and else those from before. -/
theorem selected_use (t : MemorySource) (u : Use) :
    (t.use u).selected = (t.selects? u).or t.selected := by
  match u with
  | .push row =>
    rw [use_push]
    split <;> rfl
  | .call .columnCount => rfl
  | .call .current => rfl
  | .call .advance =>
    obtain ⟨position, hposition⟩ := t.eq_use_advance
    rw [hposition]
    rfl
  | .call (.selectColumns columns) =>
    show (t.selectColumns columns).2.selected = _
    obtain ⟨e, hrefused⟩ | ⟨-, htaken⟩ := t.selectColumns_cases columns
    · simp only [selects?, hrefused, Option.none_or]
    · simp only [selects?, htaken, Option.some_or]

/-- The columns that are selected are those of the last use that selected any. -/
theorem selected_useAll (t : MemorySource) (uses : List Use) :
    (t.useAll uses).selected = (gather selects? t uses).getLast?.or t.selected := by
  induction uses generalizing t with
  | nil => rfl
  | cons u rest ih =>
    have hlast : (t.selects? u).toList.getLast? = t.selects? u := by
      cases t.selects? u <;> rfl
    show ((t.use u).useAll rest).selected = _
    rw [ih, selected_use, gather, List.getLast?_append, hlast, Option.or_assoc]

/-! ## What is presented -/

/-- What a record of a row holds in a column: the row's bytes if the column is selected. -/
theorem column?_present {row : Record} {i : Nat} (hi : i < row.width) :
    (t.present row).column? i =
      if ∀ columns ∈ t.selected, i ∈ columns then row.column? i else some [] := by
  unfold present
  cases hselected : t.selected with
  | none => simp
  | some columns =>
    rw [Record.column?_restrict, Record.column?_eq_some hi]
    by_cases hmem : i ∈ columns <;> simp [hmem]

/-- A source whose rows and selection are checked presents what it should. -/
theorem Consistent.selecting (h : t.Consistent) : t.Selecting := by
  have hwidth : ∀ {p : Nat} {row : Record}, t.rows[p]? = some row → row.width = t.columnCount :=
    fun hrow => h.width _ (List.mem_of_getElem? hrow)
  refine ⟨h, t.attempt_snd, fun u e => attempt_of_error, fun p row hp hrow => ?_, fun r hr => ?_⟩
  · refine ⟨t.present row, h.assemble?_eq_some (hwidth hrow), ?_⟩
    simp only [h.current?_eq, hp, hrow, Option.map_some]
  · rw [h.current?_eq] at hr
    cases hp : t.position with
    | none => simp [hp] at hr
    | some p =>
      simp only [hp, Option.map_eq_some_iff] at hr
      obtain ⟨row, hrow, rfl⟩ := hr
      have hrowWidth := hwidth hrow
      refine ⟨?_, p, row, rfl, hrow, fun i hi => column?_present (hrowWidth ▸ hi)⟩
      rw [present_eq_restrict, Record.width_restrict, hrowWidth]

/-- Whatever is done with rows in memory, nothing outside of them is asked for, what is refused
changes nothing, and the current record holds the bytes of the columns that were selected last. -/
theorem selecting_of_prepared (h : t.Prepared) (uses : List Use) :
    (t.useAll uses).Selecting ∧ (t.useAll uses).columnCount = t.columnCount ∧
      (t.useAll uses).selected = (gather selects? t uses).getLast?.or t.selected := by
  refine ⟨(h.consistent.useAll uses).selecting, ?_, t.selected_useAll uses⟩
  clear h
  induction uses generalizing t with
  | nil => rfl
  | cons u rest ih => exact (ih (t := t.use u)).trans (t.columnCount_use u)

/-- Uses of a source of two columns of which only the second row, the last of the selections before
it and the advance are taken. -/
def refusals : List Use :=
  [.push ⟨[[97]]⟩, .push ⟨[[97], [98]]⟩, .call (.selectColumns [0, 2]),
    .call (.selectColumns [1, 0]), .call (.selectColumns [1]), .call .advance,
    .call (.selectColumns [0]), .push ⟨[]⟩]

/-- After uses of which most are refused, the record of the one row has its second column. -/
theorem selecting_refusals :
    (ofWidth 2).Prepared ∧ ((ofWidth 2).useAll refusals).selected = some [1] ∧
      (((ofWidth 2).useAll refusals).attempt (.push ⟨[]⟩)).2 = (ofWidth 2).useAll refusals ∧
      ∃ r, ((ofWidth 2).useAll refusals).assemble? ⟨[[97], [98]]⟩ = some r ∧
        ((ofWidth 2).useAll refusals).current? = some r ∧ r.width = 2 ∧
        r.column? 0 = some [] ∧ r.column? 1 = some [98] := by
  obtain ⟨hselecting, hcount, hselected⟩ := selecting_of_prepared (.ofWidth 2) refusals
  have hlast : ((ofWidth 2).useAll refusals).selected = some [1] := hselected
  refine ⟨.ofWidth 2, hlast, hselecting.refused _ _ rfl, ?_⟩
  obtain ⟨r, hassembled, hcurrent⟩ := hselecting.assembled 0 ⟨[[97], [98]]⟩ rfl rfl
  obtain ⟨hwidth, p, row, hp, hrow, hcolumns⟩ := hselecting.presented r hcurrent
  obtain rfl : 0 = p := Option.some.inj hp
  obtain rfl : (⟨[[97], [98]]⟩ : Record) = row := Option.some.inj hrow
  rw [hcount] at hcolumns hwidth
  refine ⟨r, hassembled, hcurrent, hwidth, ?_, ?_⟩
  · rw [hcolumns 0 (by decide), hlast]
    rfl
  · rw [hcolumns 1 (by decide), hlast]
    rfl

end MemorySource

end ColumnarRecords

import ColumnarRecords.Source.Basic

/-!
# What a source is asked and answers

The calls that a source takes while it is read, and the exchanges that come of them. A caller sees
of a source nothing but the exchanges, so two sources are interchangeable if every list of calls
leads to the same exchanges with both (`ColumnSource.converse`).

`Recorded` is a source that keeps its exchanges. It answers as the source inside it does, and so it
shows what a caller did with a source without changing it.
-/

namespace ColumnarRecords

namespace ColumnSource

/-- What a source may be asked while it is read. -/
inductive Call where
  /-- How many columns there are. -/
  | columnCount
  /-- To read the columns at these positions only. -/
  | selectColumns (columns : List Nat)
  /-- To move to the next record. -/
  | advance
  /-- The record that it stands at. -/
  | current
deriving DecidableEq, Repr

/-- A call and the answer to it. -/
inductive Exchange where
  /-- The number of columns. -/
  | columnCount (answer : Nat)
  /-- Whether the columns could be selected. -/
  | selectColumns (columns : List Nat) (answer : Except ReadError Unit)
  /-- Whether there is a next record. -/
  | advance (answer : Except ReadError Bool)
  /-- The record. -/
  | current (answer : Except ReadError (Option Record))

variable {σ : Type} [ColumnSource σ]

/-- What comes of a call, and the source after it. -/
def exchange : Call → σ → Exchange × σ
  | .columnCount, s => (.columnCount (columnCount s), s)
  | .selectColumns columns, s =>
    let (answer, s) := selectColumns columns s
    (.selectColumns columns answer, s)
  | .advance, s =>
    let (answer, s) := advance s
    (.advance answer, s)
  | .current, s =>
    let (answer, s) := current s
    (.current answer, s)

/-- What comes of calls one after another, and the source after them. -/
def converse : List Call → σ → List Exchange × σ
  | [], s => ([], s)
  | call :: rest, s =>
    let (first, s) := exchange call s
    let (others, s) := converse rest s
    (first :: others, s)

/-- Sources that a relation holds of, and that every call answers alike and leaves so related, are
interchangeable. -/
theorem converse_eq_of_simulation {τ : Type} [ColumnSource τ] {R : σ → τ → Prop}
    (hstep : ∀ s t, R s t → ∀ call, (exchange call s).1 = (exchange call t).1 ∧
      R (exchange call s).2 (exchange call t).2)
    {s : σ} {t : τ} (h : R s t) (calls : List Call) :
    (converse calls s).1 = (converse calls t).1 := by
  -- Each call leaves the sources related, so the induction is for any two that are.
  induction calls generalizing s t with
  | nil => rfl
  | cons call rest ih =>
    obtain ⟨hanswer, hafter⟩ := hstep s t h call
    have hrest := ih hafter
    simp only [converse, hanswer, hrest]

end ColumnSource

open ColumnSource

/-- A source together with the exchanges that it has had. -/
structure Recorded (σ : Type) where
  /-- The source. -/
  source : σ
  /-- The exchanges in their order. -/
  log : List Exchange

namespace Recorded

variable {σ : Type} [ColumnSource σ]

/-- The source after a call, with the exchange put on record. -/
def record (call : Call) (s : Recorded σ) : Recorded σ :=
  ⟨(exchange call s.source).2, s.log ++ [(exchange call s.source).1]⟩

instance : ColumnSource (Recorded σ) where
  columnCount s := ColumnSource.columnCount s.source
  metadata? s := ColumnSource.metadata? s.source
  selectColumns columns s :=
    ((ColumnSource.selectColumns columns s.source).1, s.record (.selectColumns columns))
  advance s := ((ColumnSource.advance s.source).1, s.record .advance)
  current s := ((ColumnSource.current s.source).1, s.record .current)

variable {s : Recorded σ} {inner : σ}

/-- Moving to the next record answers as the source does, and is put on record. -/
theorem advance_eq {answer : Except ReadError Bool}
    (h : ColumnSource.advance s.source = (answer, inner)) :
    ColumnSource.advance s = (answer, ⟨inner, s.log ++ [.advance answer]⟩) := by
  have hexchange : exchange .advance s.source = (.advance answer, inner) := by
    simp only [exchange, h]
  show ((ColumnSource.advance s.source).1, s.record .advance) = _
  rw [record, hexchange, h]

/-- The record is what the source gives, and this is put on record. -/
theorem current_eq {answer : Except ReadError (Option Record)}
    (h : ColumnSource.current s.source = (answer, inner)) :
    ColumnSource.current s = (answer, ⟨inner, s.log ++ [.current answer]⟩) := by
  have hexchange : exchange .current s.source = (.current answer, inner) := by
    simp only [exchange, h]
  show ((ColumnSource.current s.source).1, s.record .current) = _
  rw [record, hexchange, h]

end Recorded

end ColumnarRecords

import ColumnarRecords.Projection.Materialize
import ColumnarRecords.Source.Basic

/-!
# Readers

A reader plans a read of a source, restricts the source to the planned columns, and then fetches
one record after another. The message of a record is built when it is first asked for and kept
until the next record is fetched. An error is given to the caller once and ends the read; so does
the end of the records.
-/

namespace ColumnarRecords

/-- How far a reader is. -/
inductive ReaderState where
  /-- No record has been fetched. -/
  | planned
  /-- The reader stands at a record. -/
  | iterating
  /-- There are no more records. -/
  | exhausted
  /-- An error ended the read. -/
  | failed
deriving DecidableEq, Repr

/-- A reader of the records of a source. -/
structure Reader (σ : Type) where
  /-- The source. -/
  source : σ
  /-- Which columns are read, and what each of them gives. -/
  plan : Plan
  /-- How far the reader is. -/
  state : ReaderState
  /-- The message of the record at which the reader stands, once it has been built. -/
  message : Option Message
  /-- The number of records fetched. -/
  recordsRead : Nat

namespace Reader

variable {σ : Type} [ColumnSource σ]

/-- A reader for the fields of given numbers: the source's metadata has to be there, to be about
as many columns as the source has, and to give a plan. -/
def openNumbers (source : σ) (s : Schema) (numbers : List Nat) : Except ReadError (Reader σ) :=
  match StoredFields.ofSource source with
  | .error e => .error e
  | .ok stored =>
    if stored.columnCount = ColumnSource.columnCount source then
      match Plan.ofNumbers s numbers stored with
      | .error e => .error e
      | .ok plan =>
        match ColumnSource.selectColumns plan.columns source with
        | (.error e, _) => .error e
        | (.ok (), source) => .ok ⟨source, plan, .planned, none, 0⟩
    else
      .error (.columnCountMismatch stored.columnCount (ColumnSource.columnCount source))

/-- A reader for a selection of fields, which is resolved before the source is looked at. -/
def ofSource (source : σ) (s : Schema) (selection : Selection) : Except ReadError (Reader σ) :=
  match selection.resolve s with
  | .error e => .error e
  | .ok numbers => openNumbers source s numbers

/-- The reader after an error. -/
def fail (r : Reader σ) : Reader σ := { r with state := .failed, message := none }

/-- Fetches the next record, if there is one. Its message is not built yet. -/
def nextRecord (r : Reader σ) : Except ReadError Bool × Reader σ :=
  match r.state with
  | .failed => (.error .readerFailed, r)
  | .exhausted => (.ok false, r)
  | .planned | .iterating =>
    match ColumnSource.advance r.source with
    | (.error e, source) => (.error e, { r with source := source }.fail)
    | (.ok false, source) =>
      (.ok false, { r with source := source, state := .exhausted, message := none })
    | (.ok true, source) =>
      (.ok true, { r with
        source := source
        state := .iterating
        message := none
        recordsRead := r.recordsRead + 1 })

/-- Builds the message of the record at which the source stands. -/
def build (r : Reader σ) : Except ReadError (Option Message) × Reader σ :=
  match ColumnSource.current r.source with
  | (.error e, source) => (.error e, { r with source := source }.fail)
  | (.ok none, source) => (.ok none, { r with source := source })
  | (.ok (some record), source) =>
    match r.plan.materialize record with
    | .error e => (.error e, { r with source := source }.fail)
    | .ok m => (.ok (some m), { r with source := source, message := some m })

/-- The message of the record at which the reader stands. -/
def currentValue (r : Reader σ) : Except ReadError (Option Message) × Reader σ :=
  match r.state with
  | .failed => (.error .readerFailed, r)
  | .planned | .exhausted => (.ok none, r)
  | .iterating =>
    match r.message with
    | some m => (.ok (some m), r)
    | none => r.build

/-- The message of the next record, or the error that ends the read; none after the last. -/
def next? (r : Reader σ) : Option (Except ReadError Message) × Reader σ :=
  if r.state = .failed then (none, r)
  else
    match r.nextRecord with
    | (.error e, r) => (some (.error e), r)
    | (.ok false, r) => (none, r)
    | (.ok true, r) =>
      match r.currentValue with
      | (.error e, r) => (some (.error e), r)
      | (.ok none, r) => (none, r)
      | (.ok (some m), r) => (some (.ok m), r)

/-- The messages of the next records, at most as many as given, up to the end or an error. -/
def take : Nat → Reader σ → List (Except ReadError Message) × Reader σ
  | 0, r => ([], r)
  | count + 1, r =>
    match r.next? with
    | (none, r) => ([], r)
    | (some item, r) =>
      let (items, r) := take count r
      (item :: items, r)

end Reader

end ColumnarRecords

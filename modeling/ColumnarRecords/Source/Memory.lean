import ColumnarRecords.Source.Basic

/-!
# Rows in memory

A source of rows that are held in memory. Rows may be added at any time. The columns that are not
selected are presented as empty, as a file's would be that are not read.
-/

namespace ColumnarRecords

/-- Rows in memory, and a position among them. -/
structure MemorySource where
  /-- The number of columns of every row. -/
  columnCount : Nat
  /-- The rows. -/
  rows : List Record
  /-- The metadata; of entries with the same key the last one counts. -/
  metadata : List (String × List UInt8)
  /-- The selected columns; all if there never was a selection. -/
  selected : Option (List Nat)
  /-- The position, which is the number of rows after the last one; none before the first. -/
  position : Option Nat
  /-- A record has been asked for. -/
  started : Bool
deriving DecidableEq, Repr

namespace MemorySource

/-- The source of no rows with as many columns. -/
def ofWidth (columnCount : Nat) : MemorySource := ⟨columnCount, [], [], none, none, false⟩

/-- The source with a further entry of the metadata. -/
def addMetadata (key : String) (value : List UInt8) (s : MemorySource) : MemorySource :=
  { s with metadata := s.metadata ++ [(key, value)] }

/-- The number of rows. -/
def rowCount (s : MemorySource) : Nat := s.rows.length

/-- The source with a further row, which has to be as wide as the source. -/
def push (row : Record) (s : MemorySource) : Except ReadError MemorySource :=
  if row.width = s.columnCount then .ok { s with rows := s.rows ++ [row] }
  else .error (.invalidState (.rowWidth row.width s.columnCount))

/-- Puts in a further row, in place. The rows are touched only after the width was checked. -/
def pushInto (row : Record) : EStateM ReadError MemorySource Unit := do
  let s ← get
  if row.width = s.columnCount then set { s with rows := s.rows ++ [row] }
  else throw (.invalidState (.rowWidth row.width s.columnCount))

/-- The value that the metadata has under a key. -/
def metadata? (s : MemorySource) (key : String) : Option (List UInt8) :=
  (s.metadata.reverse.find? (·.1 == key)).map Prod.snd

/-- Restricts reading to some columns, unless a record has been asked for. -/
def selectColumns (columns : List Nat) (s : MemorySource) : Except ReadError Unit × MemorySource :=
  if s.started then (.error (.invalidState .alreadyStarted), s)
  else
    match ColumnSource.checkSelection columns s.columnCount with
    | .error e => (.error e, s)
    | .ok () => (.ok (), { s with selected := some columns })

/-- Moves to the next row, if there is one, or else behind the last. -/
def advance (s : MemorySource) : Except ReadError Bool × MemorySource :=
  let next :=
    match s.position with
    | none => 0
    | some p => p + 1
  if next < s.rows.length then (.ok true, { s with position := some next, started := true })
  else (.ok false, { s with position := some s.rows.length, started := true })

/-- What is presented of a row: the row if there never was a selection. Else there are as many empty
columns as the source has, and each selected one is set to the bytes that the row has there; nothing
comes of it if the row or the record has no such column. -/
def assemble? (s : MemorySource) (row : Record) : Option Record :=
  match s.selected with
  | none => some row
  | some columns =>
    columns.foldlM (fun r column => (row.column? column).bind (r.set? column))
      (.ofWidth s.columnCount)

/-- The row that the source stands at. -/
def current? (s : MemorySource) : Option Record :=
  match s.position with
  | none => none
  | some p => (s.rows[p]?).bind s.assemble?

instance : ColumnSource MemorySource where
  columnCount := columnCount
  metadata? := metadata?
  selectColumns := selectColumns
  advance := advance
  current s := (.ok s.current?, s)

/-- Putting in a row in place is putting it in, or fails and changes nothing. -/
theorem pushInto_eq (row : Record) (s : MemorySource) :
    pushInto row s =
      match s.push row with
      | .ok s' => .ok () s'
      | .error e => .error e s := by
  have hget : pushInto row s =
      (if row.width = s.columnCount then set { s with rows := s.rows ++ [row] }
        else throw (.invalidState (.rowWidth row.width s.columnCount)) :
          EStateM ReadError MemorySource Unit) s := rfl
  rw [hget, push]
  split <;> rfl

end MemorySource

end ColumnarRecords

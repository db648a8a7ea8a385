import ColumnarRecords.Source.Basic

/-!
# Column files

A file holds rows of cells in row groups; a cell holds bytes or nothing. A source reads a split of
a file, which is a range of row groups, in batches of rows that hold the selected columns only.
How the rows are cut into batches is left open, apart from that no row is lost and the order is
kept (`Batching`).
-/

namespace ColumnarRecords

/-- A column of a file. -/
structure FileColumn where
  /-- The column's name. -/
  name : String
  /-- The name of the type of its cells. -/
  type : String
deriving DecidableEq, Repr

/-- The cells of a row. -/
abbrev Cells := List (Option (List UInt8))

/-- What a column file holds. -/
structure ColumnFile where
  /-- The columns. -/
  columns : List FileColumn
  /-- The rows of each row group. -/
  rowGroups : List (List Cells)
  /-- The metadata; of entries with the same key the last one that has a value counts. -/
  metadata : List (String × Option String)
deriving DecidableEq, Repr

/-- Which part of a file is read, and how. -/
structure ReadOptions where
  /-- The first row group. -/
  startRowGroup : Nat
  /-- The number of row groups; zero stands for all that are left. -/
  totalRowGroups : Nat
  /-- The number of rows in a batch; zero counts as one. -/
  batchSize : Nat
deriving DecidableEq, Repr

/-- Everything, in batches of 1024 rows. -/
def ReadOptions.default : ReadOptions := ⟨0, 0, 1024⟩

/-- A way of cutting rows into batches. -/
structure Batching where
  /-- The batches of rows. -/
  cut : List Cells → List (List Cells)
  /-- The batches are the rows in their order. -/
  flatten_cut : ∀ rows, (cut rows).flatten = rows

/-- The rows in batches of `size + 1`. -/
def chunks {α : Type} (size : Nat) (rows : List α) : List (List α) :=
  if rows = [] then [] else rows.take (size + 1) :: chunks size (rows.drop (size + 1))
termination_by rows.length
decreasing_by
  have := List.length_pos_iff.2 (by assumption : ¬rows = [])
  simp only [List.length_drop]
  omega

/-- The chunks are the rows in their order. -/
theorem flatten_chunks {α : Type} (size : Nat) (rows : List α) :
    (chunks size rows).flatten = rows := by
  rw [chunks]
  split
  · simp_all
  · rw [List.flatten_cons, flatten_chunks size (rows.drop (size + 1)), List.take_append_drop]
termination_by rows.length
decreasing_by
  have := List.length_pos_iff.2 (by assumption : ¬rows = [])
  simp only [List.length_drop]
  omega

/-- Batches of a number of rows, at least one. -/
def Batching.ofSize (size : Nat) : Batching := ⟨chunks (size - 1), flatten_chunks (size - 1)⟩

namespace Word

/-- Numbers whose differences and sums are checked: none is below zero or beyond the type. -/
class Checked (ν : Type) where
  /-- The difference, if it is not below zero. -/
  sub? : ν → ν → Option ν
  /-- The sum, if it is a number of the type. -/
  add? : ν → ν → Option ν

/-- Numbers without bounds. -/
instance : Checked Nat where
  sub? a b := if b ≤ a then some (a - b) else none
  add? a b := some (a + b)

/-- Words of 64 bits. -/
instance : Checked UInt64 where
  sub? a b := if b ≤ a then some (a - b) else none
  add? a b := if a.toNat + b.toNat < UInt64.size then some (a + b) else none

/-- The first row group of a split and the one behind its last: none if a difference or a sum is
none. -/
def groupRange? {ν : Type} [Checked ν] [Min ν] [OfNat ν 0] [DecidableEq ν] (count start total : ν) :
    Option (ν × ν) := do
  let remaining ← Checked.sub? count start
  let stop ← Checked.add? start (if total = 0 then remaining else min total remaining)
  return (start, stop)

end Word

/-- Every column holds bytes; the first one that does not is the fault. -/
def checkColumns (columns : List FileColumn) : Except ReadError Unit :=
  match columns.find? (·.type != "Binary") with
  | some c => .error (.invalidColumnType c.name c.type)
  | none => .ok ()

/-- A source that reads a split of a file. -/
structure FileSource where
  /-- How rows are cut into batches. -/
  batching : Batching
  /-- The number of columns. -/
  columnCount : Nat
  /-- The metadata. -/
  metadata : List (String × Option String)
  /-- The rows of the split. -/
  rows : List Cells
  /-- The selected columns. -/
  selected : List Nat
  /-- The batches to come; none before the first record was asked for. -/
  batches : Option (List (List Cells))
  /-- The batch that the source stands in. -/
  batch : Option (List Cells)
  /-- The position in the batch. -/
  row : Nat

namespace FileSource

/-- The row groups of a split: those from the first one on, as many as are wanted and there. -/
def split (file : ColumnFile) (options : ReadOptions) : Except ReadError (List (List Cells)) :=
  let count := file.rowGroups.length
  let start := options.startRowGroup
  if 0 < start ∧ count ≤ start then .error (.invalidRowGroup start count)
  else
    match Word.groupRange? count start options.totalRowGroups with
    | some (first, stop) => .ok (file.rowGroups.extract first stop)
    | none => .error (.invalidRowGroup start count)

/-- A source that reads a split of a file in batches cut in a given way. -/
def openWith (batching : Batching) (file : ColumnFile) (options : ReadOptions) :
    Except ReadError FileSource :=
  match checkColumns file.columns with
  | .error e => .error e
  | .ok () =>
    match split file options with
    | .error e => .error e
    | .ok groups =>
      .ok {
        batching := batching
        columnCount := file.columns.length
        metadata := file.metadata
        rows := groups.flatten
        selected := List.range file.columns.length
        batches := none
        batch := none
        row := 0 }

/-- A source that reads a split of a file. -/
def ofFile (file : ColumnFile) (options : ReadOptions) : Except ReadError FileSource :=
  openWith (.ofSize options.batchSize) file options

/-- The value that the metadata has under a key. -/
def metadata? (s : FileSource) (key : String) : Option (List UInt8) :=
  (s.metadata.reverse.findSome? fun (k, value) => if k = key then value else none).map
    Text.Utf8.encode

/-- Restricts reading to some columns, unless a record has been asked for. -/
def selectColumns (columns : List Nat) (s : FileSource) : Except ReadError Unit × FileSource :=
  if s.batches.isSome then (.error (.invalidState .alreadyStarted), s)
  else
    match ColumnSource.checkSelection columns s.columnCount with
    | .error e => (.error e, s)
    | .ok () => (.ok (), { s with selected := columns })

/-- The cells of the selected columns, in the order of the file. -/
def project (columns : List Nat) (row : Cells) : Cells :=
  row.zipIdx.filterMap fun (cell, i) => if i ∈ columns then some cell else none

/-- The batches to come; before the first record was asked for, those of all rows. -/
def pending (s : FileSource) : List (List Cells) :=
  s.batches.getD (s.batching.cut (s.rows.map (project s.selected)))

/-- Moves to the start of the next batch that has a row, if there is one. -/
def nextBatch (s : FileSource) : Except ReadError Bool × FileSource :=
  match s.pending.dropWhile List.isEmpty with
  | [] => (.ok false, { s with batches := some [], batch := none })
  | b :: rest => (.ok true, { s with batches := some rest, batch := some b, row := 0 })

/-- Moves to the next row, if there is one. -/
def advance (s : FileSource) : Except ReadError Bool × FileSource :=
  match s.batch with
  | some b => if s.row + 1 < b.length then (.ok true, { s with row := s.row + 1 }) else s.nextBatch
  | none => s.nextBatch

/-- The record of the cells of the selected columns; an empty cell and a column that is not
selected are empty. -/
def expand (s : FileSource) (cells : Cells) : Record :=
  (s.selected.zip cells).foldl
    (fun r (column, cell) => ⟨r.columns.set column (cell.getD [])⟩) (.ofWidth s.columnCount)

/-- The row that the source stands at. -/
def current? (s : FileSource) : Option Record :=
  match s.batch with
  | none => none
  | some b => (b[s.row]?).map s.expand

instance : ColumnSource FileSource where
  columnCount := columnCount
  metadata? := metadata?
  selectColumns := selectColumns
  advance := advance
  current s := (.ok s.current?, s)

end FileSource

end ColumnarRecords

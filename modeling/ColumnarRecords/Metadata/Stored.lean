import ColumnarRecords.Metadata.Basic

/-!
# Stored fields

The field number that each column of a file holds, in the order of the columns. A last entry of
`-1` marks the column that holds, as an encoded message, all fields without a column of their own.
-/

namespace ColumnarRecords

/-- The field number that each column holds. -/
structure StoredFields where
  /-- The entries, in the order of the columns. -/
  ids : List Int32
deriving DecidableEq, Repr

namespace StoredFields

/-- The entry of the column of all other fields. -/
def unknownsId : Int32 := -1

/-- The stored fields that metadata gives. -/
def ofMetadata (m : Metadata) : StoredFields := ⟨m.fieldIds⟩

/-- The number of columns. -/
def columnCount (s : StoredFields) : Nat := s.ids.length

/-- The last column holds all other fields. -/
def hasUnknownsColumn (s : StoredFields) : Bool :=
  s.ids.getLast? == some unknownsId

/-- The position of the column of all other fields. -/
def unknownsColumn? (s : StoredFields) : Option Nat :=
  if s.hasUnknownsColumn then some (s.ids.length - 1) else none

/-- The entry is the number of a field. -/
def isEntryOf (number : Nat) (id : Int32) : Bool :=
  id.toInt == Int.ofNat number

/-- A column holds the field of a number. -/
def contains (s : StoredFields) (number : Nat) : Bool :=
  s.ids.any (isEntryOf number)

/-- The columns that hold a field of those found by a lookup, ascending, each with its field. -/
def known {α : Type} (find? : Nat → Option α) (s : StoredFields) : List (Nat × α) :=
  s.ids.zipIdx.filterMap fun (id, position) =>
    if 0 ≤ id.toInt then (find? id.toInt.toNat).map fun a => (position, a) else none

end StoredFields

end ColumnarRecords

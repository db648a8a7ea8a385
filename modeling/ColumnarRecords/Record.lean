/-!
# Records

One record as a file holds it: the bytes of each column. A column that is not read is empty.
-/

namespace ColumnarRecords

/-- The bytes of each column for one record. -/
structure Record where
  /-- The bytes, in the order of the columns. -/
  columns : List (List UInt8)
deriving DecidableEq, Repr

namespace Record

/-- The record of as many empty columns. -/
def ofWidth (width : Nat) : Record := ⟨List.replicate width []⟩

/-- The number of columns. -/
def width (r : Record) : Nat := r.columns.length

/-- There is no column. -/
def isEmpty (r : Record) : Bool := r.columns.isEmpty

/-- The bytes of a column. -/
def column? (r : Record) (column : Nat) : Option (List UInt8) := r.columns[column]?

/-- The record with other bytes in a column, if there is such a column. -/
def set? (r : Record) (column : Nat) (bytes : List UInt8) : Option Record :=
  if column < r.width then some ⟨r.columns.set column bytes⟩ else none

/-- A column that was set holds its bytes, and the others hold what they held. -/
theorem column?_set {r r' : Record} {column : Nat} {bytes : List UInt8}
    (h : r.set? column bytes = some r') (i : Nat) :
    r'.column? i = if i = column then some bytes else r.column? i := by
  simp only [set?, Option.ite_none_right_eq_some, Option.some.injEq] at h
  obtain ⟨hc, rfl⟩ := h
  rw [width] at hc
  simp only [column?, List.getElem?_set]
  grind

end Record

end ColumnarRecords

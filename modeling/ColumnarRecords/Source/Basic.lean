import ColumnarRecords.Error
import ColumnarRecords.Metadata.Stored
import ColumnarRecords.Record

/-!
# Column sources

Where records come from. A source knows how many columns it has and what its metadata says, can be
told which columns to read, and then gives one record after another. Every operation that may
change a source gives the changed one; nothing is assumed of how the answers of one call relate to
those of another.
-/

namespace ColumnarRecords

/-- A source of records in columns. -/
class ColumnSource (σ : Type) where
  /-- The number of columns. -/
  columnCount : σ → Nat
  /-- The value that the metadata has under a key. -/
  metadata? : σ → String → Option (List UInt8)
  /-- Restricts reading to the columns at ascending positions. -/
  selectColumns : List Nat → σ → Except ReadError Unit × σ
  /-- Moves to the next record, if there is one. -/
  advance : σ → Except ReadError Bool × σ
  /-- The record that the source stands at; none before the first and after the last. -/
  current : σ → Except ReadError (Option Record) × σ

namespace ColumnSource

/-- Positions ascend, none coming twice. -/
def isAscending : List Nat → Bool
  | a :: b :: rest => a < b && isAscending (b :: rest)
  | _ => true

/-- A selection of columns is right for a source of as many: all positions are in range, which is
found out first, and they ascend. -/
def checkSelection (columns : List Nat) (columnCount : Nat) : Except ReadError Unit :=
  match columns.find? (columnCount ≤ ·) with
  | some column => .error (.invalidSelection (.outOfRange column columnCount))
  | none =>
    if isAscending columns then .ok () else .error (.invalidSelection (.notAscending columns))

/-- A selection passes exactly if its positions are in range and ascend. -/
theorem checkSelection_eq_ok_iff {columns : List Nat} {columnCount : Nat} :
    checkSelection columns columnCount = .ok () ↔
      (∀ c ∈ columns, c < columnCount) ∧ isAscending columns = true := by
  unfold checkSelection
  cases h : columns.find? (columnCount ≤ ·) with
  | some c =>
    have hm := List.mem_of_find?_eq_some h
    have hc := List.find?_some h
    simp only [reduceCtorEq, false_iff, not_and]
    intro hall
    have := hall c hm
    simp at hc
    omega
  | none =>
    have hall : ∀ c ∈ columns, c < columnCount := by
      intro c hc
      have := List.find?_eq_none.1 h c hc
      simpa using this
    by_cases ha : isAscending columns = true <;> simp_all

end ColumnSource

/-- The stored fields that a source's metadata gives. -/
def StoredFields.ofSource {σ : Type} [ColumnSource σ] (source : σ) :
    Except ReadError StoredFields :=
  match ColumnSource.metadata? source Metadata.key with
  | none => .error .missingMetadata
  | some bytes =>
    match Metadata.parse bytes with
    | .error fault => .error (.invalidMetadata fault)
    | .ok m => .ok (.ofMetadata m)

end ColumnarRecords

import ColumnarRecords.Metadata.Stored
import ColumnarRecords.Projection.Selection

/-!
# Projection plans

Which columns of a file a read takes, and what each of them gives. A required field with a column
of its own is read from there. Required fields without one can only come from the column of all
other fields, which is read exactly if there is such a field.
-/

namespace ColumnarRecords

open Descriptor

/-- Which columns are read, and what each of them gives. -/
structure Plan where
  /-- The message type that is built. -/
  schema : Schema
  /-- The columns that hold one required field, ascending, each with its field. -/
  known : List (Nat × Field)
  /-- The column of all other fields, if it is read. -/
  unknownsColumn : Option Nat
  /-- The required fields that have no column. -/
  unknownFields : List Field
  /-- The numbers of the required fields. -/
  required : List Nat
  /-- The number of columns in the file. -/
  storedCount : Nat

namespace Plan

/-- The plan for the fields of given numbers. Numbers that the message type does not have are left
out. -/
def ofNumbers (s : Schema) (numbers : List Nat) (stored : StoredFields) :
    Except ReadError Plan :=
  let required := numbers.filter fun n => (s.fieldOfNumber? n).isSome
  let find? := fun n => if n ∈ required then s.fieldOfNumber? n else none
  let unknownFields := (required.filter fun n => !stored.contains n).filterMap s.fieldOfNumber?
  let plan := fun column => Plan.mk s (stored.known find?) column unknownFields required
    stored.columnCount
  if unknownFields.isEmpty then .ok (plan none)
  else
    match stored.unknownsColumn? with
    | none => .error (.missingUnknownsColumn (unknownFields.map (·.name)))
    | some column => .ok (plan (some column))

/-- The plan for a selection of fields. -/
def ofSelection (s : Schema) (selection : Selection) (stored : StoredFields) :
    Except ReadError Plan :=
  match selection.resolve s with
  | .error e => .error e
  | .ok numbers => ofNumbers s numbers stored

/-- The columns that are read, ascending; the column of all other fields is the last. -/
def columns (p : Plan) : List Nat :=
  p.known.map Prod.fst ++ p.unknownsColumn.toList

/-- The fields that are read from a column of their own. -/
def knownFields (p : Plan) : List Field :=
  p.known.map Prod.snd

/-- How many columns are read, in words. -/
def readText (p : Plan) : String :=
  toString p.columns.length ++
    if p.unknownsColumn.isSome then " (including unknowns column)" else ""

/-- The plan in words, a line for the message type, one for the counts and one for each column. -/
def text (p : Plan) : String :=
  let known := p.known.map fun (column, f) => s!"  column {column}: {f.name} = {f.number}\n"
  let unknowns := p.unknownsColumn.toList.map fun column =>
    s!"  column {column}: unknowns (" ++ ", ".intercalate (p.unknownFields.map (·.name)) ++ ")\n"
  s!"message: {p.schema.fullName}\nreading {p.readText} out of {p.storedCount} stored columns " ++
    s!"for {p.required.length} required fields\n" ++ String.join (known ++ unknowns)

end Plan

end ColumnarRecords

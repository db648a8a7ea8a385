import ColumnarRecords.Schema
import ColumnarRecords.Text.Blank

/-!
# Selections of required fields

Which fields a reader has to fill: all of a message type, or those at given indices. The text of a
selection, a directive, is a list of indices with commas between them; an empty one selects all
fields. Indices are words of 64 bits.
-/

namespace ColumnarRecords

open Text

/-- Which fields a reader has to fill. -/
inductive Selection where
  /-- All fields. -/
  | all
  /-- The fields at these indices. -/
  | indices (list : List UInt64)
deriving DecidableEq, Repr

namespace Selection

/-- The index that an entry of a directive writes. Blanks around it do not count. -/
def readEntry (directive : String) (entry : List Char) : Except ReadError UInt64 :=
  match Numeral.readNat 10 Numeral.maxWord (trim entry) with
  | .ok n => .ok (UInt64.ofNat n)
  | .error fault => .error (.invalidDirective directive (String.ofList (trim entry)) fault)

/-- The selection that a directive writes. -/
def parse (directive : String) : Except ReadError Selection :=
  if trim directive.toList = [] then .ok .all
  else ((directive.toList.splitOn ',').mapM (readEntry directive)).map .indices

/-- The directive of a selection. -/
def text : Selection → String
  | all => ""
  | indices list => ",".intercalate (list.map fun n => toString n.toNat)

/-- The number of the field at an index of a schema. -/
def numberAt (s : Schema) (index : UInt64) : Except ReadError Nat :=
  match s.field? index.toNat with
  | some f => .ok f.number
  | none => .error (.indexOutOfRange index.toNat s.fieldCount s.fullName)

/-- The numbers of the selected fields, each once, in the order in which they are first named. -/
def resolve (s : Schema) : Selection → Except ReadError (List Nat)
  | all => .ok (s.fields.map (·.number))
  | indices list => (list.mapM (numberAt s)).map List.eraseDups

end Selection

end ColumnarRecords

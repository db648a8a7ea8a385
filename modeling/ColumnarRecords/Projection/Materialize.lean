import ColumnarRecords.Column.Field
import ColumnarRecords.Projection.Plan
import ColumnarRecords.Record

/-!
# Messages from records

Building the message of a record along a plan. Each known column is decoded into its field, in
ascending order of column; then the column of all other fields, if it is read, is merged on top as
an encoded message. An empty column leaves its field unset, and the first column that fails fails
the record.
-/

namespace ColumnarRecords

open Descriptor

namespace Plan

/-- The bytes that a record holds in a column. -/
def bytesOf (r : Record) (column : Nat) : Except ReadError (List UInt8) :=
  match r.column? column with
  | some bytes => .ok bytes
  | none => .error (.columnOutOfRange column r.width)

/-- A message with the field of a known column. -/
def addKnown (p : Plan) (r : Record) (m : Message) (known : Nat × Field) :
    Except ReadError Message :=
  match bytesOf r known.1 with
  | .error e => .error e
  | .ok bytes =>
    if bytes = [] then .ok m
    else
      match Column.decodeField p.schema.pool p.schema.type known.2 bytes m with
      | .error fault => .error (.decode known.2.fullName known.1 fault)
      | .ok m => .ok m

/-- A message with the fields of the column of all other fields. -/
def addUnknowns (p : Plan) (r : Record) (m : Message) (column : Nat) :
    Except ReadError Message :=
  match bytesOf r column with
  | .error e => .error e
  | .ok bytes =>
    match m.merge p.schema.pool p.schema.index bytes with
    | .error fault => .error (.unknownFields column fault)
    | .ok m => .ok m

/-- The message of a record. -/
def materialize (p : Plan) (r : Record) : Except ReadError Message :=
  match p.known.foldlM (p.addKnown r) Message.empty with
  | .error e => .error e
  | .ok m => p.unknownsColumn.toList.foldlM (p.addUnknowns r) m

end Plan

end ColumnarRecords

import ColumnarRecords.Message.Encode
import ColumnarRecords.Metadata.Stored
import ColumnarRecords.Record
import ColumnarRecords.Schema

/-!
# Records from messages

Splitting a message into columns: the values of each stored field without keys, and in the column
of all other fields, if there is one, the encoded form of the rest of the message. Of the entries of
maps both parts are written, or those only that have to be, and the entries stand in the order that
the map lists them in. Reading such a record along a plan builds the message again.
-/

namespace ColumnarRecords

open Descriptor

/-- What the column of a field holds for a message; nothing if the field is not set. -/
def Message.bareField (form : EntryForm) (p : Pool) (f : Field) (m : Message) : List UInt8 :=
  match m.value? f.number with
  | some v => if f.isSet v then f.encodeBare (v.bodies form p f.kind) else []
  | none => []

namespace StoredFields

/-- The numbers of the fields that have a column of their own. -/
def numbers (stored : StoredFields) : List Nat :=
  (stored.ids.filter fun id => 0 ≤ id.toInt).map fun id => id.toInt.toNat

/-- What the column of an entry holds for a message. -/
def shredColumn (stored : StoredFields) (form : EntryForm) (s : Schema) (m : Message)
    (id : Int32) : List UInt8 :=
  if id = unknownsId then (m.eraseAll stored.numbers).encode form s.pool s.index
  else
    match s.fieldOfNumber? id.toInt.toNat with
    | some f => m.bareField form s.pool f
    | none => []

/-- The record of a message. -/
def shred (stored : StoredFields) (form : EntryForm) (s : Schema) (m : Message) : Record :=
  ⟨stored.ids.map (stored.shredColumn form s m)⟩

/-- A record has as many columns as there are entries. -/
@[simp]
theorem width_shred (stored : StoredFields) (form : EntryForm) (s : Schema)
    (m : Message) :
    (stored.shred form s m).width = stored.columnCount := by
  simp [shred, Record.width, columnCount]

end StoredFields

end ColumnarRecords

import ColumnarRecords.Wire.Layout

/-!
# Columnar metadata

What a column file says about its columns: the name of the message type that was stored, and the
number of the field that each column holds. Here is its binary form, a message with the two fields
`classname` and `field_id`; the text form has a module of its own.
-/

namespace ColumnarRecords

/-- What a file says about its columns. -/
structure Metadata where
  /-- The name of the message type that was stored. -/
  className : Option String
  /-- The field number that each column holds, in the order of the columns. -/
  fieldIds : List Int32
deriving DecidableEq, Repr

namespace Metadata

/-- The metadata that says nothing. -/
def empty : Metadata := ⟨none, []⟩

/-- The name of the metadata's message type. -/
def typeName : String := "colproto.ColumnarMetadata"

/-- The layout of the binary form. -/
def catalogue : Wire.Layout.Catalogue := fun record =>
  if record = "ColumnarMetadata" then
    [⟨1, "classname", .leaf .text⟩, ⟨2, "field_id", .leaf .numbers⟩]
  else []

/-- The metadata of a decoded record. -/
def ofFields (fields : List (Nat × Wire.Layout.Node)) : Metadata where
  className := Wire.Layout.Node.text? fields 1
  fieldIds := Wire.Layout.Node.int32s fields 2

/-- The metadata of which bytes are the binary form. -/
def decode (bytes : List UInt8) : Except Wire.Layout.LocatedFault Metadata :=
  (Wire.Layout.decode catalogue "ColumnarMetadata" bytes).map ofFields

/-- The binary form. -/
def encode (m : Metadata) : List UInt8 :=
  (match m.className with
    | none => []
    | some name =>
      Wire.encodeKey 1 .lengthDelimited ++ Wire.encodeDelimited (Text.Utf8.encode name)) ++
  m.fieldIds.flatMap fun id =>
    Wire.encodeKey 2 .varint ++ Wire.encodeVarint (Wire.signExtend id)

end Metadata

end ColumnarRecords

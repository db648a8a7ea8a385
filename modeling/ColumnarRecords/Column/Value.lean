import ColumnarRecords.Column.Fault
import ColumnarRecords.Message.Merge

/-!
# Values of a column

A column holds the values of its field without keys: a varint, four or eight bytes, or a length
and as many bytes. Nothing but the values themselves tells where one ends; every reader here takes
at least one byte and looks no further than its value.
-/

namespace ColumnarRecords.Column

open Descriptor

/-- Reads a value from the start of a column's bytes and gives the bytes after it. -/
abbrev Reader (α : Type) := List UInt8 → Except Fault (α × List UInt8)

/-- The word at the start of the bytes. -/
def readVarint : Reader UInt64 := fun input =>
  match Wire.readVarint input with
  | .error _ => .error .invalidVarint
  | .ok r => .ok r

/-- As many bytes from the start, if there are. -/
def readBytes (count : Nat) : Reader (List UInt8) := fun input =>
  if input.length < count then .error (.truncated count input.length)
  else .ok (input.take count, input.drop count)

/-- Four bytes, little endian. -/
def readFixed32 : Reader UInt32 := fun input =>
  match readBytes 4 input with
  | .error f => .error f
  | .ok (bytes, rest) => .ok (UInt32.ofNat (Wire.ofLittleEndian bytes), rest)

/-- Eight bytes, little endian. -/
def readFixed64 : Reader UInt64 := fun input =>
  match readBytes 8 input with
  | .error f => .error f
  | .ok (bytes, rest) => .ok (UInt64.ofNat (Wire.ofLittleEndian bytes), rest)

/-- As many bytes as the varint before them says. -/
def readDelimited : Reader (List UInt8) := fun input =>
  match readVarint input with
  | .error f => .error f
  | .ok (n, rest) => readBytes n.toNat rest

/-- A value of a coding. -/
def readCoded (coding : Coding) : Reader Value := fun input =>
  match coding with
  | .varint toValue =>
    match readVarint input with
    | .error f => .error f
    | .ok (n, rest) => .ok (toValue n, rest)
  | .fixed32 toValue =>
    match readFixed32 input with
    | .error f => .error f
    | .ok (n, rest) => .ok (toValue n, rest)
  | .fixed64 toValue =>
    match readFixed64 input with
    | .error f => .error f
    | .ok (n, rest) => .ok (toValue n, rest)
  | .text =>
    match readDelimited input with
    | .error f => .error f
    | .ok (content, rest) =>
      match Text.Utf8.decode content with
      | .error f => .error (.notUtf8 f)
      | .ok s => .ok (.string s, rest)
  | .bytes =>
    match readDelimited input with
    | .error f => .error f
    | .ok (content, rest) => .ok (.bytes content, rest)

/-- The message of the type at a position that bytes encode. -/
def decodeMessage (p : Pool) (index : Nat) (bytes : List UInt8) : Except Fault Message :=
  match Message.decode p index bytes with
  | .error f => .error (.nested f)
  | .ok m => .ok m

/-- A single value of a kind. -/
def readValue (p : Pool) (kind : Kind) : Reader Value := fun input =>
  match kind with
  | .scalar s => readCoded s.coding input
  | .enum _ => readCoded enumCoding input
  | .message index =>
    match readDelimited input with
    | .error f => .error f
    | .ok (content, rest) =>
      match decodeMessage p index content with
      | .error f => .error f
      | .ok m => .ok (.message m, rest)

/-- An entry of a map whose entries are messages of the type at a position. -/
def readEntry (p : Pool) (entry : Nat) : Reader (MapKey × Value) := fun input =>
  match readDelimited input with
  | .error f => .error f
  | .ok (content, rest) =>
    match decodeMessage p entry content with
    | .error f => .error f
    | .ok m =>
      let t := p.message entry
      match t.fields.find? 1, t.fields.find? 2 with
      | some keyField, some valueField =>
        match MapKey.ofValue? (m.get keyField) with
        | none => .error .invalidMapKey
        | some key => .ok ((key, m.get valueField), rest)
      | _, _ => .error .invalidMapKey

/-- All values in the bytes. A reader that took nothing would end the list. -/
def readAll {α : Type} (read : Reader α) (input : List UInt8) : Except Fault (List α) :=
  if input = [] then .ok []
  else
    match read input with
    | .error f => .error f
    | .ok (a, rest) =>
      if rest.length < input.length then (readAll read rest).map (a :: ·) else .ok [a]
termination_by input.length

/-- The value of a reader, which has to take all bytes. -/
def readWhole {α : Type} (read : Reader α) (input : List UInt8) : Except Fault α :=
  match read input with
  | .error f => .error f
  | .ok (a, rest) => if rest = [] then .ok a else .error (.trailingBytes rest.length)

end ColumnarRecords.Column

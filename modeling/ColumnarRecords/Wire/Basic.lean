import ColumnarRecords.Power

/-!
# The wire format

An encoded message is a sequence of fields, each a key and a value. The key is a varint that
holds the field number and, in its three low bits, the wire type, which tells how the value is
delimited. This module has the wire types, the faults of decoding, and the type of readers.
-/

namespace ColumnarRecords.Wire

/-- How a value on the wire is delimited. -/
inductive WireType where
  /-- Groups of seven bits, as long as the high bit is set. -/
  | varint
  /-- Eight bytes, little endian. -/
  | fixed64
  /-- A varint that gives the number of bytes, and these bytes. -/
  | lengthDelimited
  /-- Fields up to the end key of the same number. -/
  | startGroup
  /-- The end key of a group. -/
  | endGroup
  /-- Four bytes, little endian. -/
  | fixed32
deriving DecidableEq, Repr

namespace WireType

/-- The three bits that stand for the wire type in a key. -/
def code : WireType → Nat
  | varint => 0
  | fixed64 => 1
  | lengthDelimited => 2
  | startGroup => 3
  | endGroup => 4
  | fixed32 => 5

/-- The wire type of three bits, of which two patterns have none. -/
def ofCode? : Nat → Option WireType
  | 0 => some varint
  | 1 => some fixed64
  | 2 => some lengthDelimited
  | 3 => some startGroup
  | 4 => some endGroup
  | 5 => some fixed32
  | _ => none

/-- The name of the wire type in messages. -/
def name : WireType → String
  | varint => "Varint"
  | fixed64 => "SixtyFourBit"
  | lengthDelimited => "LengthDelimited"
  | startGroup => "StartGroup"
  | endGroup => "EndGroup"
  | fixed32 => "ThirtyTwoBit"

/-- The bits of a wire type give it back. -/
theorem ofCode?_code (w : WireType) : ofCode? w.code = some w := by
  cases w <;> rfl

end WireType

/-- Why bytes are not an encoded message. -/
inductive Fault where
  /-- A varint is cut off, longer than ten bytes, or above 64 bits. -/
  | invalidVarint
  /-- A key is above 32 bits. -/
  | invalidKey (key : Nat)
  /-- The low bits of a key are no wire type. -/
  | invalidWireType (code : Nat)
  /-- A key has the field number zero. -/
  | invalidTag
  /-- A field has another wire type than its kind. -/
  | wrongWireType (actual expected : WireType)
  /-- The bytes end inside a value. -/
  | underflow
  /-- The content of a value runs past its announced length. -/
  | lengthExceeded
  /-- A string is not UTF-8. -/
  | notUtf8
  /-- An end key stands where no group of its number is open. -/
  | unexpectedEndGroup
  /-- Messages and groups are nested too deep. -/
  | recursionLimit
  /-- The kind of a map's key field is none that a key can have. -/
  | invalidMapKey
deriving DecidableEq, Repr

/-- What a fault is called, without the sentence that every message of its sort begins with. -/
def Fault.description : Fault → String
  | .invalidVarint => "invalid varint"
  | .invalidKey key => s!"invalid key value: {key}"
  | .invalidWireType code => s!"invalid wire type value: {code}"
  | .invalidTag => "invalid tag value: 0"
  | .wrongWireType actual expected =>
    s!"invalid wire type: {actual.name} (expected {expected.name})"
  | .underflow => "buffer underflow"
  | .lengthExceeded => "delimited length exceeded"
  | .notUtf8 => "invalid string value: data is not UTF-8 encoded"
  | .unexpectedEndGroup => "unexpected end group tag"
  | .recursionLimit => "recursion limit reached"
  | .invalidMapKey => "invalid map key"

/-- The wording of a fault. -/
def Fault.message (f : Fault) : String :=
  "failed to decode Protobuf message: " ++ f.description

/-- Reads a value from the start of the bytes and gives the bytes after it. -/
abbrev Reader (α : Type) := List UInt8 → Except Fault (α × List UInt8)

/-- The number of messages and groups that may be open inside an outermost message. -/
def nestingLimit : Nat := 100

end ColumnarRecords.Wire

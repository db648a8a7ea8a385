import ColumnarRecords.Wire.Loop

/-!
# Values without a schema

A field whose number no schema knows still has a value that the wire type delimits. It is kept as
that value, so that it can be written again, or skipped. Keeping and skipping differ in one
respect: skipping refuses any field below the innermost permitted group, keeping only a further
group.
-/

namespace ColumnarRecords.Wire

/-- A value as the wire shows it. -/
inductive WireValue where
  /-- A varint. -/
  | varint (n : UInt64)
  /-- Eight bytes. -/
  | fixed64 (n : UInt64)
  /-- Delimited bytes. -/
  | bytes (content : List UInt8)
  /-- The fields of a group in order of arrival, each with its number. -/
  | group (fields : List (Nat × WireValue))
  /-- Four bytes. -/
  | fixed32 (n : UInt32)

namespace WireValue

/-- The wire type of a value. -/
def wireType : WireValue → WireType
  | varint _ => .varint
  | fixed64 _ => .fixed64
  | bytes _ => .lengthDelimited
  | group _ => .startGroup
  | fixed32 _ => .fixed32

mutual

/-- The field with its key; a group ends with its end key. -/
def encodeField (number : Nat) : WireValue → List UInt8
  | varint n => encodeKey number .varint ++ encodeVarint n
  | fixed64 n => encodeKey number .fixed64 ++ encodeFixed64 n
  | bytes content => encodeKey number .lengthDelimited ++ encodeDelimited content
  | group fields =>
    encodeKey number .startGroup ++ encodeFields fields ++ encodeKey number .endGroup
  | fixed32 n => encodeKey number .fixed32 ++ encodeFixed32 n

/-- Fields one after another. -/
def encodeFields : List (Nat × WireValue) → List UInt8
  | [] => []
  | (number, value) :: rest => encodeField number value ++ encodeFields rest

end

/-- The value of a field whose key has been read. At most `budget` groups may be open inside
it. -/
def read : (budget : Nat) → (number : Nat) → WireType → Reader WireValue
  | _, _, .varint, input =>
    match readVarint input with
    | .error f => .error f
    | .ok (n, rest) => .ok (varint n, rest)
  | _, _, .fixed64, input =>
    match readFixed64 input with
    | .error f => .error f
    | .ok (n, rest) => .ok (fixed64 n, rest)
  | _, _, .lengthDelimited, input =>
    match readDelimited input with
    | .error f => .error f
    | .ok (content, rest) => .ok (bytes content, rest)
  | _, _, .fixed32, input =>
    match readFixed32 input with
    | .error f => .error f
    | .ok (n, rest) => .ok (fixed32 n, rest)
  | _, _, .endGroup, _ => .error .unexpectedEndGroup
  | 0, _, .startGroup, _ => .error .recursionLimit
  | budget + 1, number, .startGroup, input =>
    let step := fun (fields : List (Nat × WireValue)) n w rest =>
      match read budget n w rest with
      | .error f => .error f
      | .ok (value, rest) => .ok (fields ++ [(n, value)], rest)
    match untilEndGroup number step [] input with
    | .error f => .error f
    | .ok (fields, rest) => .ok (group fields, rest)

end WireValue

/-- Drops as many bytes, if there are. -/
def skipBytes (count : Nat) : Reader Unit := fun input =>
  if input.length < count then .error .underflow else .ok ((), input.drop count)

/-- Skips the value of a field whose key has been read. -/
def skip : (budget : Nat) → (number : Nat) → WireType → Reader Unit
  | 0, _, _, _ => .error .recursionLimit
  | _ + 1, _, .varint, input =>
    match readVarint input with
    | .error f => .error f
    | .ok (_, rest) => .ok ((), rest)
  | _ + 1, _, .fixed64, input => skipBytes 8 input
  | _ + 1, _, .lengthDelimited, input =>
    match readVarint input with
    | .error f => .error f
    | .ok (n, rest) => skipBytes n.toNat rest
  | _ + 1, _, .fixed32, input => skipBytes 4 input
  | _ + 1, _, .endGroup, _ => .error .unexpectedEndGroup
  | budget + 1, number, .startGroup, input =>
    untilEndGroup number (fun _ n w rest => skip budget n w rest) () input

end ColumnarRecords.Wire

import ColumnarRecords.Message.Plain
import ColumnarRecords.Message.Presence
import ColumnarRecords.Wire.Layout

/-!
# Merging encoded fields into a message

Decoding adds fields to a message one by one. A single value replaces what the field held, except
that a message is merged into the one that is there; the values of a repeated field are appended,
those of a kind that can share a delimited value coming singly or together; a map's entry replaces
one of the same key. Fields of numbers that the type does not know are kept as they are.

A member of a oneof clears the other members. Messages and groups, known or not, share one limit
on how deep they may be nested; entries of maps do not count.
-/

namespace ColumnarRecords

open Descriptor Wire

namespace Message

/-- Reads a value of a coding after checking its wire type. -/
def readCoded (coding : Coding) (w : WireType) : Reader Value := fun input =>
  match coding with
  | .varint toValue =>
    match expect .varint w, readVarint input with
    | .error f, _ => .error f
    | .ok (), .error f => .error f
    | .ok (), .ok (n, rest) => .ok (toValue n, rest)
  | .fixed32 toValue =>
    match expect .fixed32 w, readFixed32 input with
    | .error f, _ => .error f
    | .ok (), .error f => .error f
    | .ok (), .ok (n, rest) => .ok (toValue n, rest)
  | .fixed64 toValue =>
    match expect .fixed64 w, readFixed64 input with
    | .error f, _ => .error f
    | .ok (), .error f => .error f
    | .ok (), .ok (n, rest) => .ok (toValue n, rest)
  | .text =>
    match expect .lengthDelimited w, Layout.readText input with
    | .error f, _ => .error f
    | .ok (), .error f => .error f
    | .ok (), .ok (s, rest) => .ok (.string s, rest)
  | .bytes =>
    match expect .lengthDelimited w, readDelimited input with
    | .error f, _ => .error f
    | .ok (), .error f => .error f
    | .ok (), .ok (content, rest) => .ok (.bytes content, rest)

/-- Adds a field whose key has been read to a message of the type at a position. -/
abbrev FieldReader := (index : Nat) → Message → (number : Nat) → WireType → Reader Message

/-- Reads a key and hands over to a step. -/
def keyed {σ : Type} (step : σ → Nat → WireType → Reader σ) (s : σ) : Reader σ := fun input =>
  match readKey input with
  | .error f => .error f
  | .ok ((number, w), rest) => step s number w rest

/-- Merges a nested message or group into one, unless nothing may be nested any more. -/
def readNested (nested : Option FieldReader) (f : Field) (index : Nat) (w : WireType)
    (m : Message) : Reader Message := fun input =>
  if f.isGroup then
    match expect .startGroup w, nested with
    | .error fault, _ => .error fault
    | .ok (), none => .error .recursionLimit
    | .ok (), some step => untilEndGroup f.number (step index) m input
  else
    match expect .lengthDelimited w, nested with
    | .error fault, _ => .error fault
    | .ok (), none => .error .recursionLimit
    | .ok (), some step => delimited (keyed (step index)) m input

/-- The message that a value is, or the empty one. -/
def ofValue : Value → Message
  | .message m => m
  | _ => .empty

/-- Merges a single value of a field into the one that is there. -/
def readSingle (nested : Option FieldReader) (f : Field) (w : WireType) (old : Value) :
    Reader Value := fun input =>
  match f.kind with
  | .scalar s => readCoded s.coding w input
  | .enum _ => readCoded enumCoding w input
  | .message index =>
    match readNested nested f index w (ofValue old) input with
    | .error fault => .error fault
    | .ok (m, rest) => .ok (.message m, rest)

/-- Appends a single value of a field to a list. -/
def readElement (nested : Option FieldReader) (f : Field) (w : WireType) (values : List Value) :
    Reader (List Value) := fun input =>
  match readSingle nested f w (.message .empty) input with
  | .error fault => .error fault
  | .ok (v, rest) => .ok (values ++ [v], rest)

/-- Appends what a value of a repeated field holds to a list: one element, or any number of them if
they are of a kind that can share a delimited value and the value is one. -/
def readElements (nested : Option FieldReader) (f : Field) (w : WireType) (values : List Value) :
    Reader (List Value) :=
  if w = .lengthDelimited ∧ f.kind.isPackable then
    delimited (readElement nested f f.kind.wireType) values
  else readElement nested f w values

/-- Merges a value of a field, whose key has been read, into what the field held. -/
abbrev ValueReader := (f : Field) → WireType → (old : Value) → Reader Value

/-- Adds a field of a map entry, whose key has been read, to the entry's key and value. -/
def readEntryField (nested : Option FieldReader) (budget : Nat) (merge : ValueReader)
    (keyField valueField : Field) (entry : MapKey × Value) (number : Nat) (w : WireType) :
    Reader (MapKey × Value) := fun input =>
  if number = keyField.number then
    match readSingle nested keyField w entry.1.toValue input with
    | .error fault => .error fault
    | .ok (v, rest) =>
      match MapKey.ofValue? v with
      | none => .error .invalidMapKey
      | some key => .ok ((key, entry.2), rest)
  else if number = valueField.number then
    match merge valueField w entry.2 input with
    | .error fault => .error fault
    | .ok (v, rest) => .ok ((entry.1, v), rest)
  else
    match skip budget number w input with
    | .error fault => .error fault
    | .ok (_, rest) => .ok (entry, rest)

/-- Reads the entry of a map: a key that is missing is zero or empty, whatever default its field
declares, and a value that is missing is that of an unset field. -/
def readMapEntry (p : Pool) (nested : Option FieldReader) (budget : Nat) (merge : ValueReader)
    (entry : MessageType) : Reader (MapKey × Value) := fun input =>
  match entry.fields.find? 1, entry.fields.find? 2 with
  | some keyField, some valueField =>
    match MapKey.ofValue? (p.zero keyField.kind) with
    | none => .error .invalidMapKey
    | some key =>
      delimited (keyed (readEntryField nested budget merge keyField valueField))
        (key, valueField.unsetValue) input
  | _, _ => .error .invalidMapKey

/-- Merges a value of a field into what the field held, the values of entries by a reader of their
own. -/
def readValueWith (p : Pool) (nested : Option FieldReader) (budget : Nat) (merge : ValueReader) :
    ValueReader := fun f w old input =>
  match f.arity with
  | .single => readSingle nested f w old input
  | .list =>
    match readElements nested f w old.elements input with
    | .error fault => .error fault
    | .ok (values, rest) => .ok (.list values, rest)
  | .map entry =>
    match readMapEntry p nested budget merge (p.message entry) input with
    | .error fault => .error fault
    | .ok ((key, v), rest) => .ok (.map (MapKey.insert key v old.entries), rest)

/-- Merges a value of a field in whose entries maps stand in each other to some depth. No entry
begins where there is no byte, so what is merged at the innermost level does not matter. -/
def readValueTo (p : Pool) (nested : Option FieldReader) (budget : Nat) :
    (levels : Nat) → ValueReader
  | 0 => readValueWith p nested budget fun _ _ _ _ => .error .underflow
  | levels + 1 => readValueWith p nested budget (readValueTo p nested budget levels)

/-- Merges a value of a field into what the field held. The value of an entry may be a list or a map
again; it is shorter than the entry, so there are as many levels as bytes at most. -/
def readValue (p : Pool) (nested : Option FieldReader) (budget : Nat) : ValueReader :=
  fun f w old input => readValueTo p nested budget input.length f w old input

/-- Adds a field of the type, whose key has been read, to a message. -/
def readKnown (p : Pool) (nested : Option FieldReader) (budget : Nat) (t : MessageType)
    (f : Field) (m : Message) (w : WireType) : Reader Message := fun input =>
  match readValue p nested budget f w (m.get f) input with
  | .error fault => .error fault
  | .ok (v, rest) => .ok (m.assign t f v, rest)

/-- Adds a field, whose key has been read, to a message. -/
def readFieldWith (p : Pool) (nested : Option FieldReader) (budget : Nat) : FieldReader :=
  fun index m number w input =>
    let t := p.message index
    match t.find? number with
    | some f => readKnown p nested budget t f m w input
    | none =>
      match WireValue.read budget number w input with
      | .error fault => .error fault
      | .ok (v, rest) => .ok (m.addUnknown number v, rest)

/-- Adds a field, whose key has been read, to a message inside which at most `budget` messages or
groups may be open. -/
def readField (p : Pool) : (budget : Nat) → FieldReader
  | 0 => readFieldWith p none 0
  | budget + 1 => readFieldWith p (some (readField p budget)) (budget + 1)

/-- The message with all fields of an encoded message of the type at a position added. -/
def merge (p : Pool) (index : Nat) (m : Message) (bytes : List UInt8) : Except Wire.Fault Message :=
  (whileLonger 0 (keyed (readField p nestingLimit index)) m bytes).map Prod.fst

/-- The message of the type at a position that bytes encode. -/
def decode (p : Pool) (index : Nat) (bytes : List UInt8) : Except Wire.Fault Message :=
  merge p index .empty bytes

end Message

end ColumnarRecords

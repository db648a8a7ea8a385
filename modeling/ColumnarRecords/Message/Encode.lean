import ColumnarRecords.Message.Plain
import ColumnarRecords.Message.Presence

/-!
# Encoding messages

The encoded form of a message: the fields that are set, ascending by number, and then extensions and
what is held under unknown numbers, ascending by number. Each single value that a field holds has a
body, the bytes that neither key nor length belong to. From the bodies come both written forms of a
field: `Field.encodeTagged` puts the key before each of them, or before all of them if the field is
packed, and `Field.encodeBare` writes them without keys, as a column of its own holds them.
-/

namespace ColumnarRecords

open Descriptor Wire

/-- The body of a single value that is no message. -/
def Descriptor.Kind.plainBody : Kind → Value → List UInt8
  | .scalar s, v => s.encode v
  | .enum _, v => encodeEnum v
  | .message _, _ => []

/-- A body with what delimits it where there is no key: a message has its length before it. -/
def Descriptor.Kind.delimit : Kind → List UInt8 → List UInt8
  | .message _, body => encodeDelimited body
  | _, body => body

/-- The values of a field are closed by an end key instead of having a length: those of a group are,
and the entries of a map never. -/
def Descriptor.Field.isClosed (f : Field) : Bool :=
  match f.arity with
  | .map _ => false
  | _ => f.isGroup

/-- A body with its key. A group has an end key instead of a length. -/
def Descriptor.Field.encodeKeyed (f : Field) (body : List UInt8) : List UInt8 :=
  if f.isClosed then
    encodeKey f.number .startGroup ++ body ++ encodeKey f.number .endGroup
  else encodeKey f.number f.kind.wireType ++ f.kind.delimit body

/-- The bodies of a field's values with keys. -/
def Descriptor.Field.encodeTagged (f : Field) (bodies : List (List UInt8)) : List UInt8 :=
  if f.isPacked then encodeKey f.number .lengthDelimited ++ encodeDelimited bodies.flatten
  else bodies.flatMap f.encodeKeyed

/-- The bodies of a field's values one after another without keys; a group is its body. -/
def Descriptor.Field.encodeBare (f : Field) (bodies : List (List UInt8)) : List UInt8 :=
  if f.isClosed then bodies.flatten else bodies.flatMap f.kind.delimit

/-- Which parts of a map's entries are written. -/
inductive EntryForm where
  /-- The parts that are set, as in any message. -/
  | terse
  /-- Both parts. -/
  | full
deriving DecidableEq, Repr

/-- The key of a map's entry is written: in terse form only if it is neither zero nor empty or its
field has presence. -/
def EntryForm.writesKey (form : EntryForm) (p : Pool) (f : Field) (key : MapKey) : Bool :=
  form == .full || f.hasPresence || !key.toValue.isSame (p.zero f.kind)

/-- The value of a map's entry is written: in terse form only if its field is set. -/
def EntryForm.writesValue (form : EntryForm) (f : Field) (v : Value) : Bool :=
  form == .full || f.isSet v

/-- The key of a map's entry with its tag, if it is written: a single value, whatever its field
holds otherwise. -/
def EntryForm.keyBody (form : EntryForm) (p : Pool) (entry : MessageType) (key : MapKey) :
    List UInt8 :=
  match entry.fields.find? 1 with
  | some f => if form.writesKey p f key then f.encodeKeyed (f.kind.plainBody key.toValue) else []
  | none => []

mutual

/-- The encoded form of a message of the type at a position. -/
def Message.encode (form : EntryForm) (p : Pool) (index : Nat) : Message → List UInt8
  | ⟨entries⟩ =>
    encodeEntries form p (p.message index) true entries ++
      encodeEntries form p (p.message index) false entries

/-- The entries of the fields of a message, or all others, one after another. -/
def encodeEntries (form : EntryForm) (p : Pool) (t : MessageType) (ofFields : Bool) :
    List (Nat × Entry) → List UInt8
  | [] => []
  | (number, e) :: rest =>
    (if (t.fields.find? number).isSome = ofFields then e.encode form p t number else []) ++
      encodeEntries form p t ofFields rest

/-- What a message of a type holds under a number, nothing if it is an unset field. -/
def Entry.encode (form : EntryForm) (p : Pool) (t : MessageType) (number : Nat) :
    Entry → List UInt8
  | .unknown values => values.flatMap (WireValue.encodeField number)
  | .value v =>
    match t.find? number with
    | some f => if f.isSet v then f.encodeTagged (v.bodies form p f.kind) else []
    | none => []

/-- The bodies of the single values that the value of a field of a kind holds. -/
def Value.bodies (form : EntryForm) (p : Pool) (kind : Kind) : Value → List (List UInt8)
  | .list values => listBodies form p kind values
  | .map entries =>
    match kind with
    | .message entry => mapBodies form p (p.message entry) entries
    | _ => []
  | .message m =>
    match kind with
    | .message index => [m.encode form p index]
    | _ => []
  | v => [kind.plainBody v]

/-- The bodies of the values of a repeated field. -/
def listBodies (form : EntryForm) (p : Pool) (kind : Kind) : List Value → List (List UInt8)
  | [] => []
  | v :: rest => v.bodies form p kind ++ listBodies form p kind rest

/-- The bodies of the entries of a map. -/
def mapBodies (form : EntryForm) (p : Pool) (entry : MessageType) :
    List (MapKey × Value) → List (List UInt8)
  | [] => []
  | (key, v) :: rest =>
    (form.keyBody p entry key ++
      match entry.fields.find? 2 with
      | some f => if form.writesValue f v then f.encodeTagged (v.bodies form p f.kind) else []
      | none => []) ::
    mapBodies form p entry rest

end

end ColumnarRecords

import ColumnarRecords.Json.Special
import ColumnarRecords.Message.Encode
import ColumnarRecords.Message.Merge

/-!
# Messages as JSON

A message is an object of its fields that are set, ascending by number, and then its extensions,
named in brackets; what its type does not know is left out. Words of 64 bits are strings, bytes
are base 64, and enum values go by name if they have one. Messages of types with forms of their own
are written in these, and a message that another holds in packed form is written as a message, next
to the address of its type.
-/

namespace ColumnarRecords.Json

open Descriptor

/-- The name of the enum that stands for nothing, whatever its value. -/
def nullName : String := "google.protobuf.NullValue"

/-- The text of a plain value; messages, lists and maps have none. -/
def plainText (p : Pool) (kind : Kind) : Value → String
  | .bool b => if b then "true" else "false"
  | .i32 n => toString n.toInt
  | .i64 n => string (toString n.toInt)
  | .u32 n => toString n.toNat
  | .u64 n => string (toString n.toNat)
  | .f32 bits => number .json32 .binary32 bits.toNat
  | .f64 bits => number .json64 .binary64 bits.toNat
  | .string s => string s
  | .bytes content => string (String.ofList (Text.Base64.encode content))
  | .enum n =>
    match kind with
    | .enum index =>
      let t := p.enum index
      if t.fullName = nullName then "null"
      else
        match t.nameOf? n with
        | some name => string name
        | none => toString n.toInt
    | _ => toString n.toInt
  | .message _ | .list _ | .map _ => "null"

/-- The text of a map's key, which is a string. -/
def keyText : MapKey → String
  | .bool b => if b then "true" else "false"
  | .i32 n => toString n.toInt
  | .i64 n => toString n.toInt
  | .u32 n => toString n.toNat
  | .u64 n => toString n.toNat
  | .string s => s

/-- How messages are written that others hold in packed form. -/
structure Unpacking where
  /-- The pieces of a message of the type at a position. -/
  whole : Nat → Message → List Piece
  /-- The pieces of the members of the object that such a message is. -/
  members : Nat → Message → List (List Piece)

/-- The form that messages of a type have, with the name of their layout. -/
def specialOf? (typeName : String) : Option (String × Special) :=
  (Special.shortName? typeName).bind fun name => (Special.ofShortName? name).map (name, ·)

/-- The pieces of a packed message from the fields that hold it: an object with the address of its
type, and with its members or, if it has a form of its own, with its value. -/
def ofPacked (p : Pool) (inner : Unpacking) (fields : List (Nat × Wire.Layout.Node)) :
    List Piece :=
  let address := (Wire.Layout.Node.text? fields 1).getD ""
  let opening := "\x7b" ++ string "@type" ++ ":" ++ string address
  match Special.typeAt? address with
  | none => [.fault (.unnamedType address)]
  | some name =>
    match p.findMessage? name with
    | none => [.fault (.unknownType name)]
    | some index =>
      match Message.decode p index ((Wire.Layout.Node.bytes? fields 2).getD []) with
      | .error fault => [.fault (.undecodable ⟨[], fault⟩)]
      | .ok m =>
        if (specialOf? name).isSome then
          .text (opening ++ "," ++ string "value" ++ ":") :: inner.whole index m ++
            [.text "\x7d"]
        else
          commaSeparated ([.text opening] :: inner.members index m) ++ [.text "\x7d"]

/-- The pieces of a message of a type with a form of its own. Its encoded form is read by the layout
that the type has by agreement. -/
def ofSpecial? (p : Pool) (inner : Unpacking) (index : Nat) (m : Message) :
    Option (List Piece) :=
  match specialOf? (p.message index).fullName with
  | none => none
  | some (type, special) =>
    match Wire.Layout.decode Special.catalogue type (m.encode .terse p index), special with
    | .error fault, .wrapper => some [.fault (.undecodable ⟨[], fault.fault⟩)]
    | .error fault, _ => some [.fault (.undecodable fault)]
    | .ok fields, .packed => some (ofPacked p inner fields)
    | .ok fields, special => some (special.pieces type fields)

mutual

/-- The pieces of a message of the type at a position. -/
def ofMessageWith (p : Pool) (inner : Unpacking) (index : Nat) : Message → List Piece
  | ⟨entries⟩ =>
    match ofSpecial? p inner index ⟨entries⟩ with
    | some pieces => pieces
    | none =>
      let t := p.message index
      .text "\x7b" ::
        commaSeparated (ofEntries p inner t.fields (·.jsonName) entries ++
          ofEntries p inner t.extensions (fun f => "[" ++ f.fullName ++ "]") entries) ++
        [.text "\x7d"]

/-- The pieces of the members of an object that the entries of known fields are. -/
def ofEntries (p : Pool) (inner : Unpacking) (table : FieldTable) (name : Field → String) :
    List (Nat × Entry) → List (List Piece)
  | [] => []
  | (fieldNumber, e) :: rest =>
    (match table.find? fieldNumber with
      | some f => ofEntry p inner f (name f) e
      | none => []) ++ ofEntries p inner table name rest

/-- The pieces of the member that an entry is, if the field is set. -/
def ofEntry (p : Pool) (inner : Unpacking) (f : Field) (name : String) : Entry → List (List Piece)
  | .unknown _ => []
  | .value v =>
    if f.isSet v then [.text (string name ++ ":") :: ofValue p inner f.kind v] else []

/-- The pieces of the value of a field of a kind. -/
def ofValue (p : Pool) (inner : Unpacking) (kind : Kind) : Value → List Piece
  | .message m =>
    match kind with
    | .message index => ofMessageWith p inner index m
    | _ => []
  | .list values => .text "[" :: commaSeparated (ofList p inner kind values) ++ [.text "]"]
  | .map entries =>
    let valueKind :=
      match kind with
      | .message entry => ((p.message entry).fields.find? 2).map Field.kind
      | _ => none
    .text "\x7b" ::
      commaSeparated (ofMap p inner (valueKind.getD (.scalar .bool)) entries) ++ [.text "\x7d"]
  | v => [.text (plainText p kind v)]

/-- The pieces of each element of a list. -/
def ofList (p : Pool) (inner : Unpacking) (kind : Kind) : List Value → List (List Piece)
  | [] => []
  | v :: rest => ofValue p inner kind v :: ofList p inner kind rest

/-- The pieces of each member of an object that a map is. -/
def ofMap (p : Pool) (inner : Unpacking) (kind : Kind) : List (MapKey × Value) → List (List Piece)
  | [] => []
  | (key, v) :: rest =>
    (.text (string (keyText key) ++ ":") :: ofValue p inner kind v) ::
      ofMap p inner kind rest

end

/-- The pieces of the members of the object that a message of the type at a position is. -/
def membersWith (p : Pool) (inner : Unpacking) (index : Nat) (m : Message) : List (List Piece) :=
  let t := p.message index
  ofEntries p inner t.fields (·.jsonName) m.entries ++
    ofEntries p inner t.extensions (fun f => "[" ++ f.fullName ++ "]") m.entries

/-- How packed messages are written inside which others are packed at most `depth` times. -/
def unpacking (p : Pool) : (depth : Nat) → Unpacking
  | 0 => ⟨fun _ _ => [], fun _ _ => []⟩
  | depth + 1 =>
    ⟨ofMessageWith p (unpacking p depth), membersWith p (unpacking p depth)⟩

/-- The pieces of a message of the type at a position. What is packed in a message is shorter than
the message, so messages are packed in each other less often than the message has bytes. -/
def ofMessage (p : Pool) (index : Nat) (m : Message) : List Piece :=
  ofMessageWith p (unpacking p (m.encode .terse p index).length) index m

end ColumnarRecords.Json

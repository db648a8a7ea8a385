import ColumnarRecords.Json.Text
import ColumnarRecords.Message.Value
import ColumnarRecords.Text.Base64
import ColumnarRecords.Time.Timestamp

/-!
# Messages with forms of their own

Messages of some types are not written as objects of their fields, but as what they stand for:
moments and spans of time, wrapped plain values, paths of field names, and values, tables and lists
without a schema. Such a message is read by the layout that its type has by agreement, whatever the
descriptor set declares.
-/

namespace ColumnarRecords.Json

open Wire.Layout

/-- A form that messages of a type have. -/
inductive Special where
  /-- A message packed together with the address of its type. -/
  | packed
  /-- A moment. -/
  | moment
  /-- A span of time. -/
  | span
  /-- Values by name. -/
  | table
  /-- A plain value. -/
  | wrapper
  /-- Paths of field names. -/
  | mask
  /-- Values in order. -/
  | list
  /-- A value. -/
  | value
  /-- Nothing. -/
  | unit
deriving DecidableEq, Repr

namespace Special

/-- The name of a type below the package of the types with forms of their own. -/
def shortName? (fullName : String) : Option String :=
  let package := "google.protobuf.".toList
  let name := fullName.toList
  if name.take package.length = package then some (String.ofList (name.drop package.length))
  else none

/-- The form that messages of a type have. -/
def ofShortName? : String → Option Special
  | "Any" => some packed
  | "Timestamp" => some moment
  | "Duration" => some span
  | "Struct" => some table
  | "DoubleValue" => some wrapper
  | "FloatValue" => some wrapper
  | "Int64Value" => some wrapper
  | "UInt64Value" => some wrapper
  | "Int32Value" => some wrapper
  | "UInt32Value" => some wrapper
  | "BoolValue" => some wrapper
  | "StringValue" => some wrapper
  | "BytesValue" => some wrapper
  | "FieldMask" => some mask
  | "ListValue" => some list
  | "Value" => some value
  | "Empty" => some unit
  | _ => none

/-- The layouts of the messages, by the names of their types. -/
def catalogue : Catalogue
  | "Any" => [⟨1, "type_url", .leaf .text⟩, ⟨2, "value", .leaf .bytes⟩]
  | "Timestamp" => [⟨1, "seconds", .leaf .number⟩, ⟨2, "nanos", .leaf .number⟩]
  | "Duration" => [⟨1, "seconds", .leaf .number⟩, ⟨2, "nanos", .leaf .number⟩]
  | "Struct" => [⟨1, "fields", .record "FieldsEntry"⟩]
  | "FieldsEntry" => [⟨1, "key", .leaf .text⟩, ⟨2, "value", .record "Value"⟩]
  | "DoubleValue" => [⟨1, "value", .leaf .double⟩]
  | "FloatValue" => [⟨1, "value", .leaf .float⟩]
  | "Int64Value" => [⟨1, "value", .leaf .number⟩]
  | "UInt64Value" => [⟨1, "value", .leaf .number⟩]
  | "Int32Value" => [⟨1, "value", .leaf .number⟩]
  | "UInt32Value" => [⟨1, "value", .leaf .number⟩]
  | "BoolValue" => [⟨1, "value", .leaf .number⟩]
  | "StringValue" => [⟨1, "value", .leaf .text⟩]
  | "BytesValue" => [⟨1, "value", .leaf .bytes⟩]
  | "FieldMask" => [⟨1, "paths", .leaf .text⟩]
  | "ListValue" => [⟨1, "values", .record "Value"⟩]
  | "Value" => [
      ⟨1, "kind", .leaf .number⟩, ⟨2, "kind", .leaf .double⟩, ⟨3, "kind", .leaf .text⟩,
      ⟨4, "kind", .leaf .number⟩, ⟨5, "kind", .record "Struct"⟩,
      ⟨6, "kind", .record "ListValue"⟩]
  | _ => []

/-- The seconds and nanoseconds of a moment or span. -/
def time (fields : List (Nat × Node)) : Int × Int :=
  (((Node.numbers fields 1).getLast?.map fun n => n.toInt64.toInt).getD 0,
    ((Node.int32? fields 2).map Int32.toInt).getD 0)

/-- The text of the number of a wrapper, which is nothing if it is not finite. -/
def numberText (layout : Floating.Layout) (format : Floating.Format) (bits : Nat) : String :=
  (finite? layout format bits).getD "null"

/-- The text of a wrapped plain value of a type. -/
def wrapperText (type : String) (fields : List (Nat × Node)) : String :=
  let word := ((Node.numbers fields 1).getLast?).getD 0
  match type with
  | "DoubleValue" => numberText .json64 .binary64 ((Node.double? fields 1).getD 0).toNat
  | "FloatValue" => numberText .json32 .binary32 ((Node.float? fields 1).getD 0).toNat
  | "Int64Value" => string (toString word.toInt64.toInt)
  | "UInt64Value" => string (toString word.toNat)
  | "Int32Value" => toString word.toUInt32.toInt32.toInt
  | "UInt32Value" => toString word.toUInt32.toNat
  | "BoolValue" => if word = 0 then "false" else "true"
  | "StringValue" => string ((Node.text? fields 1).getD "")
  | _ => string (String.ofList (Text.Base64.encode ((Node.bytes? fields 1).getD [])))

/-- A path with a capital for each underscore and the letter after it, if the path has no capitals
and a small letter after each underscore. -/
def camelPath? : List Char → Option (List Char)
  | [] => some []
  | '_' :: c :: rest => if c.isLower then (camelPath? rest).map (c.toUpper :: ·) else none
  | ['_'] => none
  | c :: rest => if c.isUpper then none else (camelPath? rest).map (c :: ·)

/-- The text of paths with commas between them; a comma stands only where there is text before
it. -/
def maskText? (paths : List String) : Option String :=
  paths.foldlM (fun soFar path =>
    (camelPath? path.toList).map fun cs =>
      (if soFar = "" then "" else soFar ++ ",") ++ String.ofList cs) ""

/-- The values by name with one put in, ascending by name, in the place of one of the same name. -/
def insertNamed (name : String) (v : List Piece) :
    List (String × List Piece) → List (String × List Piece)
  | [] => [(name, v)]
  | (n, w) :: rest =>
    if n = name then (name, v) :: rest
    else if MapKey.textLt name.toList n.toList then (name, v) :: (n, w) :: rest
    else (n, w) :: insertNamed name v rest

/-- The pieces of an object. -/
def objectPieces (members : List (String × List Piece)) : List Piece :=
  .text "\x7b" ::
    commaSeparated (members.map fun e => .text (string e.1 ++ ":") :: e.2) ++ [.text "\x7d"]

/-- The pieces of an array. -/
def arrayPieces (elements : List (List Piece)) : List Piece :=
  .text "[" :: commaSeparated elements ++ [.text "]"]

/-- The pieces of a free value that is no table and no list, from the number of the field that
holds it. -/
def plainPieces (fieldNumber : Nat) : Node → List Piece
  | .double bits =>
    match finite? .json64 .binary64 bits.toNat with
    | some s => [.text s]
    | none => [.fault .notFinite]
  | .text s => [.text (string s)]
  | .number n =>
    [.text (if fieldNumber = 4 then if n = 0 then "false" else "true" else "null")]
  | _ => [.text "null"]

mutual

/-- The pieces of what a field of a free value holds. -/
def kindPieces (fieldNumber : Nat) : Node → List Piece
  | .record _ fields =>
    if fieldNumber = 5 then objectPieces (tableMembers [] fields)
    else arrayPieces (listElements fields)
  | node => plainPieces fieldNumber node

/-- The pieces of a free value, of whose fields the last counts; `soFar` are those of the fields
before the given ones. -/
def valuePieces (soFar : List Piece) : List (Nat × Node) → List Piece
  | [] => soFar
  | (n, node) :: rest => valuePieces (kindPieces n node) rest

/-- The values by name of a table whose fields before the given ones have led to `members`. -/
def tableMembers (members : List (String × List Piece)) :
    List (Nat × Node) → List (String × List Piece)
  | [] => members
  | (_, .record _ entry) :: rest =>
    tableMembers
      (insertNamed ((Node.text? entry 1).getD "") (entryPieces [.text "null"] entry) members) rest
  | _ :: rest => tableMembers members rest

/-- The pieces of the value of an entry of a table, of whose fields the last counts. -/
def entryPieces (soFar : List Piece) : List (Nat × Node) → List Piece
  | [] => soFar
  | (_, .record _ fields) :: rest => entryPieces (valuePieces [.text "null"] fields) rest
  | _ :: rest => entryPieces soFar rest

/-- The pieces of the elements of a list. -/
def listElements : List (Nat × Node) → List (List Piece)
  | [] => []
  | (_, .record _ fields) :: rest => valuePieces [.text "null"] fields :: listElements rest
  | _ :: rest => listElements rest

end

/-- The pieces of a message of a type with a form other than that of packed messages, from its
fields. -/
def pieces (type : String) (fields : List (Nat × Node)) : Special → List Piece
  | moment =>
    let (seconds, nanos) := time fields
    if Time.isMoment seconds then [.text (string (Time.momentText seconds nanos))]
    else [.fault .momentOutOfRange]
  | span =>
    let (seconds, nanos) := time fields
    if Time.isSpan seconds nanos then [.text (string (Time.spanText seconds nanos))]
    else [.fault .spanOutOfRange]
  | wrapper => [.text (wrapperText type fields)]
  | mask =>
    match maskText? (Node.texts fields 1) with
    | some s => [.text (string s)]
    | none => [.fault .ambiguousPath]
  | table => objectPieces (tableMembers [] fields)
  | list => arrayPieces (listElements fields)
  | value => valuePieces [.text "null"] fields
  | packed => []
  | unit => [.text "\x7b\x7d"]

/-- The name of the type at an address: what follows its last slash. -/
def typeAt? (address : String) : Option String :=
  let name := (address.toList.reverse.takeWhile (· != '/')).reverse
  if '/' ∈ address.toList then some (String.ofList name) else none

end Special

end ColumnarRecords.Json

import ColumnarRecords.Floating.Layout
import ColumnarRecords.Text.Quoted
import ColumnarRecords.Wire.Layout

/-!
# JSON text

The text of strings and numbers in JSON, and text in pieces. A value that has no text breaks off
what is written: `written` gives the text before the first such value.
-/

namespace ColumnarRecords.Json

/-- Why a value has no text. -/
inductive Fault where
  /-- A moment is not in the years from 1 to 9999. -/
  | momentOutOfRange
  /-- A span of time is too long. -/
  | spanOutOfRange
  /-- A path of field names cannot be told from its form in capitals. -/
  | ambiguousPath
  /-- A number of a free value is not finite. -/
  | notFinite
  /-- The address of the type of a packed message has no name in it. -/
  | unnamedType (address : String)
  /-- There is no message type of the name. -/
  | unknownType (name : String)
  /-- A message cannot be decoded by its form. -/
  | undecodable (fault : Wire.Layout.LocatedFault)
deriving DecidableEq, Repr

/-- The wording of a fault. -/
def Fault.message : Fault → String
  | .momentOutOfRange => "timestamp out of range"
  | .spanOutOfRange => "duration out of range"
  | .ambiguousPath => "cannot roundtrip field name through camelcase"
  | .notFinite => "cannot serialize non-finite double in google.protobuf.Value"
  | .unnamedType address =>
    s!"unsupported type url '{address}': missing at least one '/' character"
  | .unknownType name => s!"message '{name}' not found"
  | .undecodable fault => s!"error decoding: {fault.message}"

/-- A piece of what is written. -/
inductive Piece where
  /-- Text. -/
  | text (s : String)
  /-- A value that has no text. -/
  | fault (f : Fault)
deriving DecidableEq, Repr

/-- The text before the first fault, and that fault. -/
def written : List Piece → String × Option Fault
  | [] => ("", none)
  | .fault f :: _ => ("", some f)
  | .text s :: rest =>
    let (t, fault) := written rest
    (s ++ t, fault)

/-- Pieces with commas between them. -/
def commaSeparated : List (List Piece) → List Piece
  | [] => []
  | [item] => item
  | item :: rest => item ++ .text "," :: commaSeparated rest

/-- A character as it stands in a string. -/
def stringChar (c : Char) : List Char :=
  if c = '"' then ['\\', '"']
  else if c = '\\' then ['\\', '\\']
  else if c = '\x08' then ['\\', 'b']
  else if c = '\x0c' then ['\\', 'f']
  else if c = '\n' then ['\\', 'n']
  else if c = '\r' then ['\\', 'r']
  else if c = '\t' then ['\\', 't']
  else if c.toNat < 32 then
    ['\\', 'u', '0', '0', Nat.digitChar (c.toNat / 16), Nat.digitChar (c.toNat % 16)]
  else [c]

/-- The text of a string. -/
def string (s : String) : String :=
  String.ofList ('"' :: s.toList.flatMap stringChar ++ ['"'])

/-- The text of a number; infinities and what is no number are strings. -/
def number (layout : Floating.Layout) (format : Floating.Format) (bits : Nat) : String :=
  match Floating.ofBits format bits with
  | .finite negative significand exponent =>
    layout.text format (.finite negative significand exponent)
  | n => string (layout.text format n)

/-- The text of a number that is finite. -/
def finite? (layout : Floating.Layout) (format : Floating.Format) (bits : Nat) : Option String :=
  match Floating.ofBits format bits with
  | .finite negative significand exponent =>
    some (layout.text format (.finite negative significand exponent))
  | _ => none

end ColumnarRecords.Json

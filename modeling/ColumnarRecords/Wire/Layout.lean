import ColumnarRecords.Text.Utf8
import ColumnarRecords.Wire.Unknown

/-!
# Records of a fixed layout

Some messages have a layout that the library knows beforehand: the list of stored fields and the
descriptors of a schema. A `Catalogue` gives the fields of each such record by its name; decoding
with it yields the values of the known fields in order of arrival. Fields of other numbers are
skipped. A fault in a known field tells the fields it happened in, the innermost first.
-/

namespace ColumnarRecords.Wire.Layout

/-- What a field of a record holds that is no record itself. -/
inductive Leaf where
  /-- Text in UTF-8. -/
  | text
  /-- Any bytes. -/
  | bytes
  /-- A varint. -/
  | number
  /-- Any number of varints, one a field or many in one delimited value. -/
  | numbers
  /-- Four bytes. -/
  | float
  /-- Eight bytes. -/
  | double
deriving DecidableEq, Repr

/-- What a field of a record holds. -/
inductive Form where
  /-- A plain value. -/
  | leaf (form : Leaf)
  /-- A record, named in the catalogue. -/
  | record (name : String)
deriving DecidableEq, Repr

/-- A field of a record. -/
structure Field where
  /-- The number in the field's key. -/
  number : Nat
  /-- The field's name, for faults. -/
  name : String
  /-- What the field holds. -/
  form : Form
deriving DecidableEq, Repr

/-- The fields of each record by the record's name. -/
abbrev Catalogue := String → List Field

/-- A value of a known field. -/
inductive Node where
  /-- Text. -/
  | text (s : String)
  /-- Bytes. -/
  | bytes (content : List UInt8)
  /-- A varint. -/
  | number (n : UInt64)
  /-- Four bytes. -/
  | float (bits : UInt32)
  /-- Eight bytes. -/
  | double (bits : UInt64)
  /-- The bytes of a record, and its known fields in order of arrival. -/
  | record (content : List UInt8) (fields : List (Nat × Node))

/-- A fault and the fields it happened in, each with the record it belongs to, the innermost
first. -/
structure LocatedFault where
  /-- The record and the field, from the inside out. -/
  path : List (String × String)
  /-- What is wrong there. -/
  fault : Fault
deriving DecidableEq, Repr

/-- The wording of a located fault. -/
def LocatedFault.message (f : LocatedFault) : String :=
  "failed to decode Protobuf message: " ++
    String.join (f.path.map fun p => p.1 ++ "." ++ p.2 ++ ": ") ++ f.fault.description

/-- The fault seen from the record around it. -/
def LocatedFault.within (f : LocatedFault) (record field : String) : LocatedFault :=
  { f with path := f.path ++ [(record, field)] }

/-- The values read so far, and the bytes after them. -/
abbrev Progress := Except LocatedFault (List (Nat × Node) × List UInt8)

/-- Reads one value after checking its wire type. -/
def readOne {α : Type} (expected actual : WireType) (read : Reader α) (toNode : α → Node)
    (number : Nat) (fields : List (Nat × Node)) (input : List UInt8) :
    Except Fault (List (Nat × Node) × List UInt8) :=
  match expect expected actual with
  | .error f => .error f
  | .ok () =>
    match read input with
    | .error f => .error f
    | .ok (a, rest) => .ok (fields ++ [(number, toNode a)], rest)

/-- Delimited bytes that have to be UTF-8. -/
def readText : Reader String := fun input =>
  match readDelimited input with
  | .error f => .error f
  | .ok (content, rest) =>
    match Text.Utf8.decode content with
    | .error _ => .error .notUtf8
    | .ok s => .ok (s, rest)

/-- Adds a varint to the values of a field. -/
def readNumber (number : Nat) (fields : List (Nat × Node)) : Reader (List (Nat × Node)) :=
  fun input => readOne .varint .varint readVarint .number number fields input

/-- Reads a plain value of a field. -/
def readLeaf (form : Leaf) (number : Nat) (w : WireType) (fields : List (Nat × Node))
    (input : List UInt8) : Except Fault (List (Nat × Node) × List UInt8) :=
  match form with
  | .text => readOne .lengthDelimited w readText .text number fields input
  | .bytes => readOne .lengthDelimited w readDelimited .bytes number fields input
  | .number => readOne .varint w readVarint .number number fields input
  | .numbers =>
    if w = .lengthDelimited then delimited (readNumber number) fields input
    else readOne .varint w readVarint .number number fields input
  | .float => readOne .fixed32 w readFixed32 .float number fields input
  | .double => readOne .fixed64 w readFixed64 .double number fields input

/-- The same outcome, with a fault in no field yet. -/
def unlocated {α : Type} : Except Fault α → Except LocatedFault α
  | .error f => .error ⟨[], f⟩
  | .ok a => .ok a

/-- The same outcome, with a fault seen from the record around it. -/
def within {α : Type} (record field : String) : Except LocatedFault α → Except LocatedFault α
  | .error f => .error (f.within record field)
  | .ok a => .ok a

/-- Reads the content of a record of the announced length, by a step for each of its fields. -/
def readRecord (step : List (Nat × Node) → List UInt8 → Progress) (input : List UInt8) :
    Progress :=
  match readVarint input with
  | .error f => .error ⟨[], f⟩
  | .ok (n, rest) =>
    if rest.length < n.toNat then .error ⟨[], .underflow⟩
    else
      match whileLonger (rest.length - n.toNat) step [] rest with
      | .error f => .error f
      | .ok (fields, after) =>
        if after.length = rest.length - n.toNat then .ok (fields, after)
        else .error ⟨[], .lengthExceeded⟩

/-- The content of a record that was read from the bytes `input`, up to the bytes `after` it. -/
def contentBefore (after input : List UInt8) : List UInt8 :=
  match readVarint input with
  | .error _ => []
  | .ok (_, rest) => rest.take (rest.length - after.length)

/-- Reads the key and the value at the start of the bytes as a field of a record. At most `budget`
records may be open inside it. -/
def readField (catalogue : Catalogue) :
    (budget : Nat) → (record : String) → List (Nat × Node) → List UInt8 → Progress
  | budget, record, fields, input =>
    match readKey input with
    | .error f => .error ⟨[], f⟩
    | .ok ((number, w), rest) =>
      match (catalogue record).find? (·.number == number) with
      | none =>
        match skip budget number w rest with
        | .error f => .error ⟨[], f⟩
        | .ok (_, rest) => .ok (fields, rest)
      | some field =>
        within record field.name <|
          match field.form with
          | .leaf form => unlocated (readLeaf form number w fields rest)
          | .record name =>
            match expect .lengthDelimited w, budget with
            | .error f, _ => .error ⟨[], f⟩
            | .ok (), 0 => .error ⟨[], .recursionLimit⟩
            | .ok (), budget + 1 =>
              match readRecord (readField catalogue budget name) rest with
              | .error f => .error f
              | .ok (inner, after) =>
                .ok (fields ++ [(number, .record (contentBefore after rest) inner)], after)

/-- The known fields of an encoded record in order of arrival. -/
def decode (catalogue : Catalogue) (record : String) (bytes : List UInt8) :
    Except LocatedFault (List (Nat × Node)) :=
  (whileLonger 0 (readField catalogue nestingLimit record) [] bytes).map Prod.fst

namespace Node

/-- The last text that a field holds. -/
def text? (fields : List (Nat × Node)) (number : Nat) : Option String :=
  (fields.filterMap fun
    | (n, .text s) => if n = number then some s else none
    | _ => none).getLast?

/-- All texts that a field holds. -/
def texts (fields : List (Nat × Node)) (number : Nat) : List String :=
  fields.filterMap fun
    | (n, .text s) => if n = number then some s else none
    | _ => none

/-- All varints that a field holds. -/
def numbers (fields : List (Nat × Node)) (number : Nat) : List UInt64 :=
  fields.filterMap fun
    | (n, .number v) => if n = number then some v else none
    | _ => none

/-- All varints that a field holds, cut to signed words of 32 bits. -/
def int32s (fields : List (Nat × Node)) (number : Nat) : List Int32 :=
  (numbers fields number).map fun n => n.toUInt32.toInt32

/-- The last varint that a field holds, cut to a signed word of 32 bits. -/
def int32? (fields : List (Nat × Node)) (number : Nat) : Option Int32 :=
  (int32s fields number).getLast?

/-- The last varint that a field holds, as a truth value. -/
def flag? (fields : List (Nat × Node)) (number : Nat) : Option Bool :=
  (numbers fields number).getLast?.map (· != 0)

/-- The fields of each record that a field holds. -/
def records (fields : List (Nat × Node)) (number : Nat) : List (List (Nat × Node)) :=
  fields.filterMap fun
    | (n, .record _ inner) => if n = number then some inner else none
    | _ => none

/-- The bytes of the one record that a field holds, if it holds one: what arrives in several pieces
is one record after another. -/
def content? (fields : List (Nat × Node)) (number : Nat) : Option (List UInt8) :=
  let pieces := fields.filterMap fun
    | (n, .record content _) => if n = number then some content else none
    | _ => none
  if pieces.isEmpty then none else some pieces.flatten

/-- The last bytes that a field holds. -/
def bytes? (fields : List (Nat × Node)) (number : Nat) : Option (List UInt8) :=
  (fields.filterMap fun
    | (n, .bytes content) => if n = number then some content else none
    | _ => none).getLast?

/-- The last eight bytes that a field holds. -/
def double? (fields : List (Nat × Node)) (number : Nat) : Option UInt64 :=
  (fields.filterMap fun
    | (n, .double bits) => if n = number then some bits else none
    | _ => none).getLast?

/-- The last four bytes that a field holds. -/
def float? (fields : List (Nat × Node)) (number : Nat) : Option UInt32 :=
  (fields.filterMap fun
    | (n, .float bits) => if n = number then some bits else none
    | _ => none).getLast?

/-- The fields of the one record that a field holds: what arrives in several pieces is one record
after another. -/
def merged (fields : List (Nat × Node)) (number : Nat) : List (Nat × Node) :=
  (records fields number).flatten

end Node

end ColumnarRecords.Wire.Layout

import ColumnarRecords.Descriptor.OptionTypes
import ColumnarRecords.Descriptor.Resolution
import ColumnarRecords.Floating.Layout
import ColumnarRecords.Floating.Nearest
import ColumnarRecords.Message.Merge

/-!
# Options

The options of declarations that are written down by name are set one by one in the message that the
options are. A name leads through fields of messages to the last one, which must not be set yet
unless it is repeated, and whose type decides which values are suitable.
-/

namespace ColumnarRecords.Descriptor

namespace Declaration

/-- The parts of a name with points between them, those that name extensions in brackets. -/
def NamePart.join (parts : List NamePart) : String :=
  ".".intercalate (parts.map fun part =>
    if part.isExtension then "(" ++ part.name ++ ")" else part.name)

namespace Assignment

/-- The value as it was written. -/
def text (a : Assignment) : String :=
  match a.word, a.positive, a.negative, a.double, a.string, a.aggregate with
  | some s, _, _, _, _, _ => s
  | none, some n, _, _, _, _ => toString n.toNat
  | none, none, some n, _, _, _ => toString n.toInt
  | none, none, none, some bits, _, _ =>
    Floating.Layout.plain.text .binary64 (Floating.ofBits .binary64 bits.toNat)
  | none, none, none, none, some content, _ => String.ofList (Text.Utf8.decodeLossy content)
  | none, none, none, none, none, some s => s
  | none, none, none, none, none, none => ""

/-- The whole number that the value is. -/
def whole? (a : Assignment) : Option Int :=
  match a.positive, a.negative with
  | some n, _ => some n.toNat
  | none, some n => some n.toInt
  | none, none => none

/-- The whole number that the value is, if it is in a range. -/
def wholeIn? (a : Assignment) (least greatest : Int) : Option Int :=
  a.whole?.bind fun n => if least ≤ n ∧ n ≤ greatest then some n else none

/-- The bits of a number in a format, rounded to nearest. -/
def bitsOf (f : Floating.Format) : Floating.Number → Nat
  | .nan => f.infinityBits + f.binade / 2
  | .infinite negative => f.infinityBits + if negative then f.signBit else 0
  | .finite negative significand exponent =>
    (if significand = 0 then 0
      else Floating.ofRatio f (significand * 2 ^ exponent.toNat) (2 ^ (-exponent).toNat)) +
      if negative then f.signBit else 0

/-- The number that the value is, in a floating point format. -/
def bits? (f : Floating.Format) (a : Assignment) : Option Nat :=
  match a.double, a.whole?, a.word with
  | some bits, _, _ => some (bitsOf f (Floating.ofBits .binary64 bits.toNat))
  | none, some n, _ => some (bitsOf f (.finite (n < 0) n.natAbs 0))
  | none, none, some "inf" => some (bitsOf f (.infinite false))
  | none, none, some "nan" => some (bitsOf f .nan)
  | none, none, _ => none

/-- The value as one of a kind of plain values, if it is suitable. -/
def scalar? (a : Assignment) : Scalar → Option Value
  | .double => (a.bits? .binary64).map fun n => .f64 (UInt64.ofNat n)
  | .float => (a.bits? .binary32).map fun n => .f32 (UInt32.ofNat n)
  | .int32 | .sint32 | .sfixed32 =>
    (a.wholeIn? (-2 ^ 31) (2 ^ 31 - 1)).map fun n => .i32 (Int32.ofInt n)
  | .int64 | .sint64 | .sfixed64 =>
    (a.wholeIn? (-2 ^ 63) (2 ^ 63 - 1)).map fun n => .i64 (Int64.ofInt n)
  | .uint32 | .fixed32 => (a.wholeIn? 0 (2 ^ 32 - 1)).map fun n => .u32 (UInt32.ofNat n.toNat)
  | .uint64 | .fixed64 => (a.wholeIn? 0 (2 ^ 64 - 1)).map fun n => .u64 (UInt64.ofNat n.toNat)
  | .bool =>
    match a.word with
    | some "true" => some (.bool true)
    | some "false" => some (.bool false)
    | _ => none
  | .string =>
    a.string.bind fun content =>
      match Text.Utf8.decode content with
      | .ok s => some (.string s)
      | .error _ => none
  | .bytes => a.string.map .bytes

/-- The value as one of a kind, if it is suitable. A message is not looked into. -/
def value? (p : Pool) (a : Assignment) : Kind → Option Value
  | .scalar s => a.scalar? s
  | .enum index => (a.word.bind (p.enum index).numberOf?).map .enum
  | .message _ => a.aggregate.map fun _ => .message .empty

end Assignment

end Declaration

/-- The type of a field in words. -/
def Pool.fieldTypeName (p : Pool) (f : Field) : String :=
  match f.arity with
  | .single => p.kindName f.kind
  | .list => "repeated " ++ p.kindName f.kind
  | .map entry =>
    let part := fun number =>
      (((p.message entry).fields.find? number).map fun g => p.kindName g.kind).getD ""
    s!"map<{part 1}, {part 2}>"

/-- What the names of options in a file stand for. -/
structure OptionScope where
  /-- What references in the file stand for. -/
  scope : Scope
  /-- The types that the descriptor set declares. -/
  declared : Pool
  /-- The extensions that the descriptor set declares, each with the position of the message type
  it extends. -/
  extensions : List (Nat × Field)

namespace OptionScope

open Declaration

/-- The type of options of a name: the one that the descriptor set declares, if it does. -/
def typeOf (o : OptionScope) (name : String) : Pool × Nat :=
  match o.declared.findMessage? name with
  | some index => (o.declared, index)
  | none => (OptionTypes.pool, (OptionTypes.pool.findMessage? name).getD 0)

/-- The field of a message type that a part of a name names, seen from a place; `done` is the name
up to and with this part. -/
def field (o : OptionScope) (p : Pool) (place : String) (index : Nat) (done : List NamePart)
    (part : NamePart) : Except Fault Field :=
  let t := p.message index
  if part.isExtension then do
    let d ← o.scope.resolve .extension place part.name
    match o.extensions.find? (·.2.fullName == d.name) with
    | none => .error (.undefinedName part.name)
    | some (extended, f) =>
      let found := (o.declared.message extended).fullName
      if found = t.fullName then .ok f
      else .error (.foreignOption (NamePart.join done) t.fullName found)
  else
    match t.fields.named? part.name with
    | some f => .ok f
    | none => .error (.unknownOption (NamePart.join done))

/-- A message of options with the option set whose name begins with `done` and goes on with the
given parts from the message on. -/
def set (o : OptionScope) (p : Pool) (place : String) (a : Assignment) :
    (index : Nat) → Message → (done rest : List NamePart) → Except Fault Message
  | _, m, _, [] => .ok m
  | index, m, done, part :: rest => do
    let done := done ++ [part]
    let f ← o.field p place index done part
    let t := p.message index
    let old := m.get f
    if rest = [] then
      if f.arity = .single ∧ (m.value? f.number).any f.isSet then
        .error (.duplicateOption (NamePart.join done))
      else
        match a.value? p f.kind with
        | none => .error (.unsuitableOption (NamePart.join done) (p.kindName f.kind) a.text)
        | some v =>
          let value :=
            match old with
            | .list values => .list (values ++ [v])
            | _ => v
          return m.assign t f value
    else
      match f.kind, f.arity with
      | .message inner, .single =>
        let sub ← o.set p place a inner (Message.ofValue old) done rest
        return m.assign t f (.message sub)
      | _, _ => .error (.fieldlessOption (NamePart.join done) (p.fieldTypeName f))

/-- The options of a declaration at a place can be set in a message of their type. -/
def check (o : OptionScope) (place typeName : String) : Option Options → Except Fault Unit
  | none => .ok ()
  | some options => do
    let (p, index) := o.typeOf ("google.protobuf." ++ typeName)
    match Message.decode p index options.encoded with
    | .error fault => .error (.undecodableOptions fault)
    | .ok m =>
      let _ ← options.assignments.foldlM (fun m a => o.set p place a index m [] a.name) m

/-- The options of an item are in order. -/
def checkItem (o : OptionScope) (item : Item) : Except Fault Unit :=
  match item.subject with
  | .package => .ok ()
  | .message m => do
    o.check item.fullName "MessageOptions" m.options
    m.extensionRanges.forM fun r => o.check item.fullName "ExtensionRangeOptions" r.options
  | .oneof d => o.check item.fullName "OneofOptions" d.options
  | .field d => o.check item.fullName "FieldOptions" d.options
  | .extension d => o.check item.fullName "FieldOptions" d.options
  | .enum d => o.check item.fullName "EnumOptions" d.options
  | .enumValue d => o.check item.fullName "EnumValueOptions" d.options
  | .service d => o.check item.fullName "ServiceOptions" d.options
  | .method d => o.check item.fullName "MethodOptions" d.options

end OptionScope

/-- The options in a file are in order. -/
def checkFileOptions (definitions : Definitions) (files : List Declaration.File) (r : Resolved)
    (f : Declaration.File) : Except Fault Unit := do
  let dialect ← Dialect.ofDeclared f.dialect
  let o : OptionScope := ⟨Scope.ofFile definitions files dialect f, r.pool, r.extensions⟩
  o.check f.package "FileOptions" f.options
  f.items.forM o.checkItem

end ColumnarRecords.Descriptor

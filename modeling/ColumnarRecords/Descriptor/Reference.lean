import ColumnarRecords.Descriptor.Basic
import ColumnarRecords.Descriptor.Default
import ColumnarRecords.Descriptor.Definition

/-!
# References

What the names in a file stand for. A reference that starts with a point is a full name. Another one
is looked up from the innermost scope outward; if it has several parts, the first of them decides in
which scope the others are looked up. A file sees what it defines itself, what the files it imports
define, and what these import to pass it on.
-/

namespace ColumnarRecords.Descriptor

/-- What the references in a file may stand for. -/
structure Scope where
  /-- All defined names. -/
  definitions : Definitions
  /-- The files whose definitions the file may use. -/
  visible : List String
  /-- The file's dialect. -/
  dialect : Dialect

/-- The import at a position. -/
def importAt? (f : Declaration.File) (position : Int) : Option String :=
  if 0 ≤ position then f.dependencies[position.toNat]? else none

/-- The imports of a file that its importers see as well. -/
def publicImports (files : List Declaration.File) (name : String) : List String :=
  match files.find? (·.name == name) with
  | none => []
  | some f => f.publicDependencies.filterMap (importAt? f)

/-- What the references in a file may stand for. -/
def Scope.ofFile (definitions : Definitions) (files : List Declaration.File)
    (dialect : Dialect) (f : Declaration.File) : Scope where
  definitions := definitions
  visible := f.name :: f.dependencies ++ f.dependencies.flatMap (publicImports files)
  dialect := dialect

/-- What a reference is wanted to stand for. -/
inductive Wanted where
  /-- A message type. -/
  | message
  /-- A message or enum type. -/
  | fieldType
  /-- An extension. -/
  | extension
deriving DecidableEq, Repr

namespace Wanted

/-- What is wanted, in words. -/
def text : Wanted → String
  | message => "a message type"
  | fieldType => "a message or enum type"
  | extension => "an extension"

/-- The meaning is wanted. -/
def accepts : Wanted → Meaning → Bool
  | message, .message _ _ => true
  | fieldType, .message _ _ => true
  | fieldType, .enum _ _ => true
  | extension, .extension => true
  | _, _ => false

end Wanted

/-- What is found under a full name. -/
inductive Finding where
  /-- What is wanted. -/
  | found (d : Definition)
  /-- Something else. -/
  | otherSort (d : Definition)
  /-- Something that the file does not see. -/
  | hidden (name : String)
  /-- Nothing. -/
  | missing

namespace Scope

/-- What is found under a full name. Packages are seen from everywhere. -/
def look (s : Scope) (wanted : Wanted) (fullName : String) : Finding :=
  match s.definitions.find? fullName with
  | none => .missing
  | some d =>
    let isPackage :=
      match d.meaning with
      | .package => true
      | _ => false
    if isPackage || s.visible.contains d.file then
      if wanted.accepts d.meaning then .found d else .otherSort d
    else .hidden d.name

/-- What a name without a point stands for: what is wanted in the innermost scope that has it, else
the first that is found under the name. -/
def lookSimple (s : Scope) (wanted : Wanted) (scope name : String) : Finding :=
  let findings := (Naming.scopes scope).map fun outer => s.look wanted (Naming.qualify outer name)
  let isFound : Finding → Bool
    | .found _ => true
    | _ => false
  let isPresent : Finding → Bool
    | .missing => false
    | _ => true
  match findings.find? isFound with
  | some finding => finding
  | none => (findings.find? isPresent).getD .missing

/-- The full name that a reference of several parts stands for: its first part is a scope. -/
def qualified? (s : Scope) (scope reference : String) : Option String :=
  let isScope := fun outer =>
    ((s.definitions.find? (Naming.qualify outer (Naming.firstPart reference))).map fun d =>
      d.meaning.isScope).getD false
  ((Naming.scopes scope).find? isScope).map fun outer => Naming.qualify outer reference

/-- The definition that a reference stands for. -/
def resolve (s : Scope) (wanted : Wanted) (scope reference : String) : Except Fault Definition :=
  let verdict : Finding → Except Fault Definition
    | .found d => .ok d
    | .otherSort d => .error (.notOfSort d.name wanted.text)
    | .hidden name => .error (.undefinedName name)
    | .missing => .error (.undefinedName reference)
  match Naming.absolute? reference with
  | some name => verdict (s.look wanted name)
  | none =>
    if scope = "" then verdict (s.look wanted reference)
    else if Naming.firstPart reference = reference then
      verdict (s.lookSimple wanted scope reference)
    else
      match s.qualified? scope reference with
      | none => .error (.undefinedName reference)
      | some name =>
        match s.look wanted name with
        | .missing => .error (.shadowed reference name)
        | finding => verdict finding

end Scope

/-- The kind of plain values that has a code. -/
def Scalar.ofCode? : Nat → Option Scalar
  | 1 => some .double
  | 2 => some .float
  | 3 => some .int64
  | 4 => some .uint64
  | 5 => some .int32
  | 6 => some .fixed64
  | 7 => some .fixed32
  | 8 => some .bool
  | 9 => some .string
  | 12 => some .bytes
  | 13 => some .uint32
  | 15 => some .sfixed32
  | 16 => some .sfixed64
  | 17 => some .sint32
  | 18 => some .sint64
  | _ => none

/-- The code of groups. -/
def groupCode : Nat := 10

/-- A type that a field refers to, as far as the field needs it. -/
inductive Target where
  /-- Plain values. -/
  | scalar (s : Scalar)
  /-- The message type at a position, and whether its messages are entries of a map. -/
  | message (index : Nat) (isMapEntry : Bool)
  /-- The enum type at a position, with its full name. -/
  | enum (index : Nat) (fullName : String) (declaration : Declaration.EnumType)

namespace Target

/-- The kind of values of a type. -/
def kind : Target → Kind
  | scalar s => .scalar s
  | message index _ => .message index
  | enum index _ _ => .enum index

/-- The values are messages or groups. -/
def isMessage : Target → Bool
  | message _ _ => true
  | scalar _ | enum _ _ _ => false

/-- The value that stands for an unset field of a type, declared or not. -/
def defaultValue (declared : Option String) : Target → Except Fault Value
  | scalar s =>
    match declared with
    | none => .ok s.zero
    | some text =>
      match s.default? text with
      | some v => .ok v
      | none => .error (.invalidDefault text s.name)
  | message _ _ =>
    match declared with
    | none => .ok (.message .empty)
    | some text => .error (.invalidDefault text "message type")
  | enum _ fullName e =>
    match declared with
    | none =>
      .ok (.enum (match e.values with
        | [] => 0
        | v :: _ => Int32.ofInt v.number))
    | some text =>
      match enumDefault? text e with
      | some v => .ok v
      | none => .error (.invalidDefault text fullName)

end Target

/-- The type that a field at a place of its file refers to from a scope. A name goes before the
code, which then only tells groups from other messages. -/
def Scope.target (s : Scope) (scope : String) (path : List Nat) (t : Declaration.TypeRef) :
    Except Fault Target :=
  if t.name = "" then
    match Scalar.ofCode? t.code with
    | some k => .ok (.scalar k)
    | none => .error (.missingType (path ++ [6]))
  else
    match s.resolve .fieldType scope t.name with
    | .error f => .error f
    | .ok ⟨_, _, .message index m⟩ => .ok (.message index m.isMapEntry)
    | .ok ⟨fullName, _, .enum index e⟩ => .ok (.enum index fullName e)
    | .ok d => .error (.notOfSort d.name Wanted.fieldType.text)

end ColumnarRecords.Descriptor

import ColumnarRecords.Descriptor.Reference

/-!
# Types from declarations

The message and enum types that files declare, with every reference resolved. Imports, fields,
enums, methods and extensions are checked in the order of declaration, and the first flaw is the
fault.
-/

namespace ColumnarRecords.Descriptor

/-- The number is one that a field can have. -/
def isFieldNumber (n : Int) : Bool :=
  1 ≤ n && n ≤ maxFieldNumber && !(19000 ≤ n && n ≤ 19999)

/-- The number is in a range given by its first number and the one after its last. -/
def inRange (n : Int) (range : Int × Int) : Bool :=
  range.1 ≤ n && n < range.2

/-- A number is one that a field or extension of a message may have. -/
def checkNumber (m : Declaration.MessageType) (number : Int) : Except Fault Unit :=
  if !isFieldNumber number then .error (.invalidFieldNumber number)
  else
    match m.reservedRanges.find? (inRange number) with
    | some r => .error (.reservedFieldNumber number r.1 (r.2 - 1))
    | none => .ok ()

/-- A number is in no range that a message leaves to extensions. -/
def checkNotExtension (m : Declaration.MessageType) (number : Int) : Except Fault Unit :=
  match m.extensionRanges.find? (fun r => inRange number r.numbers) with
  | some r => .error (.extensionFieldNumber number r.numbers.1 (r.numbers.2 - 1))
  | none => .ok ()

/-- The position of the oneof that a field of a message is a member of. -/
def oneofOf (m : Declaration.MessageType) (f : Declaration.Field) : Except Fault (Option Nat) :=
  match f.oneofIndex with
  | none => .ok none
  | some i =>
    if 0 ≤ i ∧ i.toNat < m.oneofs.length then .ok (some i.toNat) else .error .invalidOneof

/-- The field that a declaration with a resolved type and default value stands for. Presence and
membership in a oneof are those of an extension. -/
def fieldOf (dialect : Dialect) (fullName : String) (target : Target) (defaultValue : Value)
    (f : Declaration.Field) : Field where
  number := f.number.toNat
  name := f.name
  fullName := fullName
  jsonName := f.jsonName.getD (Naming.jsonName f.name)
  kind := target.kind
  arity :=
    if !f.repeated then .single
    else match target with
      | .message index true => .map index
      | _ => .list
  isGroup := target.isMessage && f.type.code == groupCode
  hasPresence := !f.repeated
  oneof := none
  isPacked :=
    f.repeated && target.kind.isPackable && f.packed.getD (dialect == .implicitPresence)
  defaultValue := defaultValue

/-- A field of a message. It has presence if it is declared so, as a member of a oneof, or as a
single value that is a message or in the dialect of explicit presence. -/
def Scope.field (s : Scope) (m : Declaration.MessageType) (fullName : String) (path : List Nat)
    (f : Declaration.Field) : Except Fault Field := do
  checkNumber m f.number
  checkNotExtension m f.number
  let target ← s.target fullName path f.type
  let oneof ← oneofOf m f
  let defaultValue ← target.defaultValue f.defaultText
  return { fieldOf s.dialect fullName target defaultValue f with
    hasPresence :=
      f.optionalPresence || f.oneofIndex.isSome ||
        (!f.repeated && (target.isMessage || s.dialect == .explicitPresence))
    oneof := oneof }

/-- The table with a field of a declaration, the number and name in JSON of which are those of no
other. -/
def addField (t : FieldTable) (f : Declaration.Field) (field : Field) :
    Except Fault FieldTable :=
  match t.insert? field with
  | none => .error (.duplicateFieldNumber f.number)
  | some after =>
    if t.toList.any (·.jsonName == field.jsonName) then
      .error (.duplicateJsonName (f.jsonName.getD ""))
    else .ok after

/-- A message type without its extensions. -/
def Scope.message (s : Scope) (fullName : String) (path : List Nat)
    (m : Declaration.MessageType) : Except Fault MessageType := do
  let fields ← m.fields.zipIdx.foldlM (fun table e => do
    let field ← s.field m (Naming.qualify fullName e.1.name) (path ++ [2, e.2]) e.1
    addField table e.1 field) FieldTable.empty
  return ⟨fullName, fields, .empty, m.oneofs.map Declaration.Oneof.name, m.isMapEntry⟩

/-- The values of an enum may have their numbers, those before them being given. -/
def checkEnumNumbers (e : Declaration.EnumType) : (seen values : List Int) → Except Fault Unit
  | _, [] => .ok ()
  | seen, n :: rest =>
    match e.reservedRanges.find? (fun r => r.1 ≤ n && n ≤ r.2) with
    | some r => .error (.reservedEnumNumber n r.1 r.2)
    | none =>
      if n ∈ seen ∧ !e.allowAlias then .error (.duplicateEnumNumber n)
      else checkEnumNumbers e (seen ++ [n]) rest

/-- An enum type. -/
def enumOf (fullName : String) (e : Declaration.EnumType) : Except Fault EnumType := do
  checkEnumNumbers e [] (e.values.map Declaration.EnumValue.number)
  return ⟨fullName, e.values.map fun v => (v.name, Int32.ofInt v.number)⟩

/-- An extension and the position of the message type it extends. -/
def Scope.extension (s : Scope) (fullName : String) (path : List Nat) (f : Declaration.Field) :
    Except Fault (Nat × Field) := do
  let extendee := f.extendee.getD ""
  match ← s.resolve .message fullName extendee with
  | ⟨extended, _, .message index m⟩ =>
    let target ← s.target fullName path f.type
    checkNumber m f.number
    if !(m.extensionRanges.any fun r => inRange f.number r.numbers) then
      .error (.notAnExtensionNumber extended f.number)
    let defaultValue ← target.defaultValue f.defaultText
    return (index, fieldOf s.dialect fullName target defaultValue f)
  | d => .error (.notOfSort d.name Wanted.message.text)

/-- The messages that a method asks and answers with exist. -/
def Scope.checkMethod (s : Scope) (fullName : String) (m : Declaration.Method) :
    Except Fault Unit := do
  let _ ← s.resolve .message fullName m.input
  let _ ← s.resolve .message fullName m.output

/-- The types resolved so far, and the extensions to be added to them. -/
structure Resolved where
  /-- The message types. -/
  messages : List MessageType
  /-- The enum types. -/
  enums : List EnumType
  /-- The extensions, each with the position of the message type it extends. -/
  extensions : List (Nat × Field)

namespace Resolved

/-- Nothing resolved. -/
def empty : Resolved := ⟨[], [], []⟩

/-- The resolved types with those of an item. -/
def addItem (s : Scope) (r : Resolved) (item : Item) : Except Fault Resolved :=
  match item.subject with
  | .message m => do
    let t ← s.message item.fullName item.path m
    return { r with messages := r.messages ++ [t] }
  | .enum e => do
    let t ← enumOf item.fullName e
    return { r with enums := r.enums ++ [t] }
  | .method m => do
    s.checkMethod item.fullName m
    return r
  | .extension f => do
    let e ← s.extension item.fullName item.path f
    return { r with extensions := r.extensions ++ [e] }
  | .package | .oneof _ | .field _ | .enumValue _ | .service _ => .ok r

/-- The imports of a file exist. -/
def checkImports (files : List Declaration.File) (f : Declaration.File) : Except Fault Unit :=
  match f.dependencies.find? fun name => !(files.any (·.name == name)) with
  | some name => .error (.missingImport name)
  | none =>
    if (f.publicDependencies ++ f.weakDependencies).any fun i => (importAt? f i).isNone then
      .error .invalidImport
    else .ok ()

/-- The resolved types with those of a file. -/
def addFile (definitions : Definitions) (files : List Declaration.File) (r : Resolved)
    (f : Declaration.File) : Except Fault Resolved := do
  checkImports files f
  let dialect ← Dialect.ofDeclared f.dialect
  f.items.foldlM (addItem (Scope.ofFile definitions files dialect f)) r

/-- The types that files declare, the names in them being defined. -/
def ofFiles (definitions : Definitions) (files : List Declaration.File) :
    Except Fault Resolved :=
  files.foldlM (addFile definitions files) empty

/-- The types, each with its extensions. Of extensions that share a number the first counts. -/
def pool (r : Resolved) : Pool where
  messages := r.messages.zipIdx.map fun e =>
    let own := r.extensions.filterMap fun x => if x.1 = e.2 then some x.2 else none
    { e.1 with extensions := e.1.extensions.insertAll own }
  enums := r.enums

end Resolved

end ColumnarRecords.Descriptor

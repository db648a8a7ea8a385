import ColumnarRecords.Descriptor.Declaration
import ColumnarRecords.Descriptor.Fault
import ColumnarRecords.Descriptor.Naming

/-!
# Definitions

The names that the files of a descriptor set define, and the check that none is defined twice.
Packages may be shared; everything else has a name of its own, across all files. Definitions are
found in the order in which the files declare them, a message before what is inside it, and the
first conflict in this order is the fault.
-/

namespace ColumnarRecords.Descriptor

/-- A dialect of the language of schemas. -/
inductive Dialect where
  /-- Presence is explicit. -/
  | explicitPresence
  /-- Presence of plain values is implicit, and lists of numbers are packed. -/
  | implicitPresence
deriving DecidableEq, Repr

/-- The dialect that a file declares. -/
def Dialect.ofDeclared (declared : Option String) : Except Fault Dialect :=
  match declared with
  | none => .ok .explicitPresence
  | some "proto2" => .ok .explicitPresence
  | some "proto3" => .ok .implicitPresence
  | some other => .error (.unknownDialect other)

/-- What an item of a file is. -/
inductive Subject where
  /-- A package. -/
  | package
  /-- A message. -/
  | message (declaration : Declaration.MessageType)
  /-- A oneof. -/
  | oneof (declaration : Declaration.Oneof)
  /-- A field. -/
  | field (declaration : Declaration.Field)
  /-- An enum. -/
  | enum (declaration : Declaration.EnumType)
  /-- A value of an enum. -/
  | enumValue (declaration : Declaration.EnumValue)
  /-- A service. -/
  | service (declaration : Declaration.Service)
  /-- A method. -/
  | method (declaration : Declaration.Method)
  /-- An extension. -/
  | extension (declaration : Declaration.Field)

/-- Something that a file declares under a full name. -/
structure Item where
  /-- The full name. -/
  fullName : String
  /-- Where the file holds it: the numbers of fields of descriptors and positions in turn. -/
  path : List Nat
  /-- What it is. -/
  subject : Subject

namespace Declaration

/-- The items that the elements of a list give, each for its position below a path. -/
def itemsAt {α : Type} (path : List Nat) (items : List Nat → α → List Item) (l : List α) :
    List Item :=
  l.zipIdx.flatMap fun e => items (path ++ [e.2]) e.1

/-- An enum and its values, which are named in the scope around the enum. -/
def EnumType.items (scope : String) (path : List Nat) (e : EnumType) : List Item :=
  ⟨Naming.qualify scope e.name, path, .enum e⟩ ::
    itemsAt (path ++ [2]) (fun at_ v => [⟨Naming.qualify scope v.name, at_, .enumValue v⟩]) e.values

/-- An extension. -/
def Field.extensionItems (scope : String) (path : List Nat) (f : Field) : List Item :=
  [⟨Naming.qualify scope f.name, path, .extension f⟩]

mutual

/-- A message and what is declared inside it. -/
def MessageType.items (scope : String) (path : List Nat) : MessageType → List Item
  | ⟨name, fields, nested, enums, extensions, oneofs, extensionRanges, reservedRanges, entry,
      options⟩ =>
    let inner := Naming.qualify scope name
    ⟨inner, path, .message ⟨name, fields, nested, enums, extensions, oneofs, extensionRanges,
        reservedRanges, entry, options⟩⟩ ::
      itemsAt (path ++ [8]) (fun at_ o => [⟨Naming.qualify inner o.name, at_, .oneof o⟩]) oneofs ++
      itemsAt (path ++ [2]) (fun at_ f => [⟨Naming.qualify inner f.name, at_, .field f⟩]) fields ++
      nestedItems inner (path ++ [3]) 0 nested ++
      itemsAt (path ++ [4]) (EnumType.items inner) enums ++
      itemsAt (path ++ [6]) (Field.extensionItems inner) extensions

/-- Messages, the first of which is at a position below a path, and what is declared inside
them. -/
def nestedItems (scope : String) (path : List Nat) (position : Nat) :
    List MessageType → List Item
  | [] => []
  | m :: rest =>
    MessageType.items scope (path ++ [position]) m ++ nestedItems scope path (position + 1) rest

end

/-- A service and its methods. -/
def Service.items (scope : String) (path : List Nat) (s : Service) : List Item :=
  let inner := Naming.qualify scope s.name
  ⟨inner, path, .service s⟩ ::
    itemsAt (path ++ [2]) (fun at_ m => [⟨Naming.qualify inner m.name, at_, .method m⟩]) s.methods

/-- All that a file declares. -/
def File.items (f : File) : List Item :=
  (if f.package = "" then []
    else (Naming.packageScopes f.package ++ [f.package]).map fun name => ⟨name, [2], .package⟩) ++
  nestedItems f.package [4] 0 f.messages ++
  itemsAt [5] (EnumType.items f.package) f.enums ++
  itemsAt [6] (Service.items f.package) f.services ++
  itemsAt [7] (Field.extensionItems f.package) f.extensions

end Declaration

/-- What a name stands for. -/
inductive Meaning where
  /-- A package. -/
  | package
  /-- The message type at a position of the pool. -/
  | message (index : Nat) (declaration : Declaration.MessageType)
  /-- The enum type at a position of the pool. -/
  | enum (index : Nat) (declaration : Declaration.EnumType)
  /-- A service. -/
  | service
  /-- An extension. -/
  | extension
  /-- Anything else. -/
  | member

/-- What has the meaning may have names inside it. -/
def Meaning.isScope : Meaning → Bool
  | package | message _ _ | enum _ _ | service => true
  | extension | member => false

/-- A defined name. -/
structure Definition where
  /-- The full name. -/
  name : String
  /-- The file that defines it. -/
  file : String
  /-- What it stands for. -/
  meaning : Meaning

/-- The names defined so far, with the numbers of message and enum types among them. -/
structure Definitions where
  /-- The definitions. -/
  list : List Definition
  /-- The position that the next message type gets. -/
  messages : Nat
  /-- The position that the next enum type gets. -/
  enums : Nat

namespace Definitions

/-- No definition. -/
def empty : Definitions := ⟨[], 0, 0⟩

/-- The definition of a full name. -/
def find? (d : Definitions) (name : String) : Option Definition :=
  d.list.find? (·.name == name)

/-- The first two fields that differ in case and underscores alone, an earlier and a later one. -/
def camelCaseConflict? : (seen names : List String) → Option (String × String)
  | _, [] => none
  | seen, name :: rest =>
    match seen.find? fun s => Naming.folded s == Naming.folded name with
    | some first => some (first, name)
    | none => camelCaseConflict? (seen ++ [name]) rest

/-- What is wrong with an item whatever its name. -/
def flaw? (dialect : Dialect) : Subject → Option Fault
  | .message m =>
    if dialect = .implicitPresence then
      (camelCaseConflict? [] (m.fields.map Declaration.Field.name)).map fun c =>
        .camelCaseConflict c.1 c.2
    else none
  | .enum e =>
    match e.values with
    | [] => some .emptyEnum
    | v :: _ =>
      if dialect = .implicitPresence ∧ v.number ≠ 0 then some .firstValueNotZero else none
  | _ => none

/-- What the name of an item stands for once it is defined. -/
def meaning (d : Definitions) : Subject → Meaning
  | .package => .package
  | .message m => .message d.messages m
  | .enum e => .enum d.enums e
  | .service _ => .service
  | .extension _ => .extension
  | .oneof _ | .field _ | .enumValue _ | .method _ => .member

/-- What keeps an item's name from being defined. -/
def conflict? (file : String) (d : Definitions) (item : Item) : Option Fault :=
  match d.find? item.fullName, item.subject with
  | none, _ => none
  | some ⟨_, _, .package⟩, .package => none
  | some other, _ =>
    some (if other.file = file then .definedTwice item.fullName
      else .definedElsewhere item.fullName other.file)

/-- The definitions with those of an item of a file. -/
def addItem (file : String) (dialect : Dialect) (d : Definitions) (item : Item) :
    Except Fault Definitions :=
  match d.conflict? file item, flaw? dialect item.subject with
  | some f, _ => .error f
  | none, some f => .error f
  | none, none => .ok {
      list := d.list ++ [⟨item.fullName, file, d.meaning item.subject⟩]
      messages := match item.subject with | .message _ => d.messages + 1 | _ => d.messages
      enums := match item.subject with | .enum _ => d.enums + 1 | _ => d.enums }

/-- The definitions of files, the names of those before them being given. -/
def addFiles (d : Definitions) : (seen : List String) → List Declaration.File →
    Except Fault Definitions
  | _, [] => .ok d
  | seen, f :: rest => do
    let dialect ← Dialect.ofDeclared f.dialect
    if f.name ∈ seen then .error (.duplicateFile f.name)
    let d ← f.items.foldlM (addItem f.name dialect) d
    addFiles d (seen ++ [f.name]) rest

/-- The definitions of all files of a descriptor set. -/
def ofFiles (files : List Declaration.File) : Except Fault Definitions :=
  addFiles empty [] files

end Definitions

end ColumnarRecords.Descriptor

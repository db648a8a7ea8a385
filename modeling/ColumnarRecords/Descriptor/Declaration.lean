import ColumnarRecords.Wire.Layout

/-!
# Declarations

What a descriptor set declares: files with their messages, enums and extensions, as they are
written in it and before any name is resolved. `Declaration.decodeFiles` reads the files from the
encoded set by the layout of descriptors, which `Declaration.catalogue` gives.
-/

namespace ColumnarRecords.Descriptor.Declaration

open Wire.Layout

/-- A part of the name of an option. -/
structure NamePart where
  /-- The name of a field, or of an extension. -/
  name : String
  /-- The part names an extension. -/
  isExtension : Bool
deriving DecidableEq, Repr

/-- An option as it was written down, before its name was looked up: a name in parts, of which each
but the first names a field inside what is named before it, and a value in one of several forms. -/
structure Assignment where
  /-- The name. -/
  name : List NamePart
  /-- The value, if it is a word. -/
  word : Option String
  /-- The value, if it is a number without a sign. -/
  positive : Option UInt64
  /-- The value, if it is a number with a sign. -/
  negative : Option Int64
  /-- The bits of the value, if it is a floating point number. -/
  double : Option UInt64
  /-- The value, if it is a string. -/
  string : Option (List UInt8)
  /-- The value, if it is a message in the text form. -/
  aggregate : Option String
deriving DecidableEq, Repr

/-- The options of a declaration. -/
structure Options where
  /-- The encoded message that they are. -/
  encoded : List UInt8
  /-- Those of them whose names are still to be looked up. -/
  assignments : List Assignment
deriving DecidableEq, Repr

/-- A type as a field declares it: by a code for the scalars, and by a name for the rest. -/
structure TypeRef where
  /-- The code of the type, from 1 to 18. -/
  code : Nat
  /-- The name of the message or enum, as written; it is empty if there is none. -/
  name : String
deriving DecidableEq, Repr

/-- A declared field or extension. -/
structure Field where
  /-- The field's own name. -/
  name : String
  /-- The declared number. -/
  number : Int
  /-- The field holds any number of values. -/
  repeated : Bool
  /-- The declared type. -/
  type : TypeRef
  /-- The name of the extended message, for an extension. -/
  extendee : Option String
  /-- The declared default value, as text. -/
  defaultText : Option String
  /-- The position of the oneof that the field is a member of. -/
  oneofIndex : Option Int
  /-- The declared name in JSON. -/
  jsonName : Option String
  /-- Whether several values share one delimited value, for a field with options. -/
  packed : Option Bool
  /-- The field is declared optional where presence is else implicit. -/
  optionalPresence : Bool
  /-- The options. -/
  options : Option Options
deriving DecidableEq, Repr

/-- A declared value of an enum. -/
structure EnumValue where
  /-- The value's own name. -/
  name : String
  /-- The number. -/
  number : Int
  /-- The options. -/
  options : Option Options
deriving DecidableEq, Repr

/-- A declared enum. -/
structure EnumType where
  /-- The enum's own name. -/
  name : String
  /-- The values, in order of declaration. -/
  values : List EnumValue
  /-- Several names may share a number. -/
  allowAlias : Bool
  /-- Ranges of numbers that no value may have, each with its first and its last number. -/
  reservedRanges : List (Int × Int)
  /-- The options. -/
  options : Option Options
deriving DecidableEq, Repr

/-- A declared oneof. -/
structure Oneof where
  /-- The oneof's own name. -/
  name : String
  /-- The options. -/
  options : Option Options
deriving DecidableEq, Repr

/-- A range of numbers that a message leaves to extensions. -/
structure ExtensionRange where
  /-- The first number and the one after the last. -/
  numbers : Int × Int
  /-- The options. -/
  options : Option Options
deriving DecidableEq, Repr

/-- A declared message. -/
structure MessageType where
  /-- The message's own name. -/
  name : String
  /-- The fields, in order of declaration. -/
  fields : List Field
  /-- The messages declared inside it. -/
  nested : List MessageType
  /-- The enums declared inside it. -/
  enums : List EnumType
  /-- The extensions declared inside it. -/
  extensions : List Field
  /-- The oneofs. -/
  oneofs : List Oneof
  /-- The ranges of numbers left to extensions. -/
  extensionRanges : List ExtensionRange
  /-- Ranges of numbers that no field may have, each with its first number and the one after its
  last. -/
  reservedRanges : List (Int × Int)
  /-- The message is the entry of a map. -/
  isMapEntry : Bool
  /-- The options. -/
  options : Option Options

/-- A declared method of a service. -/
structure Method where
  /-- The method's own name. -/
  name : String
  /-- The name of the message that is asked with, as written. -/
  input : String
  /-- The name of the message that is answered with, as written. -/
  output : String
  /-- The options. -/
  options : Option Options
deriving DecidableEq, Repr

/-- A declared service. -/
structure Service where
  /-- The service's own name. -/
  name : String
  /-- The methods. -/
  methods : List Method
  /-- The options. -/
  options : Option Options
deriving DecidableEq, Repr

/-- A declared file. -/
structure File where
  /-- The file's name. -/
  name : String
  /-- The package, empty if there is none. -/
  package : String
  /-- The names of the imported files. -/
  dependencies : List String
  /-- The positions of the imports that are passed on to importers. -/
  publicDependencies : List Int
  /-- The positions of the imports that may be missing elsewhere. -/
  weakDependencies : List Int
  /-- The messages of the file. -/
  messages : List MessageType
  /-- The enums of the file. -/
  enums : List EnumType
  /-- The services of the file. -/
  services : List Service
  /-- The extensions of the file. -/
  extensions : List Field
  /-- The declared dialect of the language, if any. -/
  dialect : Option String
  /-- The options. -/
  options : Option Options

/-- The layout of descriptors, by the name of each record. -/
def catalogue : Catalogue
  | "FileDescriptorSet" => [⟨1, "file", .record "FileDescriptorProto"⟩]
  | "FileDescriptorProto" => [
      ⟨1, "name", .leaf .text⟩, ⟨2, "package", .leaf .text⟩, ⟨3, "dependency", .leaf .text⟩,
      ⟨10, "public_dependency", .leaf .numbers⟩, ⟨11, "weak_dependency", .leaf .numbers⟩,
      ⟨4, "message_type", .record "DescriptorProto"⟩,
      ⟨5, "enum_type", .record "EnumDescriptorProto"⟩,
      ⟨6, "service", .record "ServiceDescriptorProto"⟩,
      ⟨7, "extension", .record "FieldDescriptorProto"⟩,
      ⟨8, "options", .record "FileOptions"⟩,
      ⟨9, "source_code_info", .record "SourceCodeInfo"⟩, ⟨12, "syntax", .leaf .text⟩]
  | "DescriptorProto" => [
      ⟨1, "name", .leaf .text⟩, ⟨2, "field", .record "FieldDescriptorProto"⟩,
      ⟨6, "extension", .record "FieldDescriptorProto"⟩,
      ⟨3, "nested_type", .record "DescriptorProto"⟩,
      ⟨4, "enum_type", .record "EnumDescriptorProto"⟩,
      ⟨5, "extension_range", .record "ExtensionRange"⟩,
      ⟨8, "oneof_decl", .record "OneofDescriptorProto"⟩,
      ⟨7, "options", .record "MessageOptions"⟩,
      ⟨9, "reserved_range", .record "ReservedRange"⟩, ⟨10, "reserved_name", .leaf .text⟩]
  | "ExtensionRange" => [
      ⟨1, "start", .leaf .number⟩, ⟨2, "end", .leaf .number⟩,
      ⟨3, "options", .record "ExtensionRangeOptions"⟩]
  | "ReservedRange" => [⟨1, "start", .leaf .number⟩, ⟨2, "end", .leaf .number⟩]
  | "FieldDescriptorProto" => [
      ⟨1, "name", .leaf .text⟩, ⟨3, "number", .leaf .number⟩, ⟨4, "label", .leaf .number⟩,
      ⟨5, "type", .leaf .number⟩, ⟨6, "type_name", .leaf .text⟩, ⟨2, "extendee", .leaf .text⟩,
      ⟨7, "default_value", .leaf .text⟩, ⟨9, "oneof_index", .leaf .number⟩,
      ⟨10, "json_name", .leaf .text⟩, ⟨8, "options", .record "FieldOptions"⟩,
      ⟨17, "proto3_optional", .leaf .number⟩]
  | "OneofDescriptorProto" => [
      ⟨1, "name", .leaf .text⟩, ⟨2, "options", .record "OneofOptions"⟩]
  | "EnumDescriptorProto" => [
      ⟨1, "name", .leaf .text⟩, ⟨2, "value", .record "EnumValueDescriptorProto"⟩,
      ⟨3, "options", .record "EnumOptions"⟩,
      ⟨4, "reserved_range", .record "EnumReservedRange"⟩, ⟨5, "reserved_name", .leaf .text⟩]
  | "EnumReservedRange" => [⟨1, "start", .leaf .number⟩, ⟨2, "end", .leaf .number⟩]
  | "EnumValueDescriptorProto" => [
      ⟨1, "name", .leaf .text⟩, ⟨2, "number", .leaf .number⟩,
      ⟨3, "options", .record "EnumValueOptions"⟩]
  | "ServiceDescriptorProto" => [
      ⟨1, "name", .leaf .text⟩, ⟨2, "method", .record "MethodDescriptorProto"⟩,
      ⟨3, "options", .record "ServiceOptions"⟩]
  | "MethodDescriptorProto" => [
      ⟨1, "name", .leaf .text⟩, ⟨2, "input_type", .leaf .text⟩,
      ⟨3, "output_type", .leaf .text⟩, ⟨4, "options", .record "MethodOptions"⟩,
      ⟨5, "client_streaming", .leaf .number⟩, ⟨6, "server_streaming", .leaf .number⟩]
  | "FileOptions" => [
      ⟨1, "java_package", .leaf .text⟩, ⟨8, "java_outer_classname", .leaf .text⟩,
      ⟨10, "java_multiple_files", .leaf .number⟩,
      ⟨20, "java_generate_equals_and_hash", .leaf .number⟩,
      ⟨27, "java_string_check_utf8", .leaf .number⟩, ⟨9, "optimize_for", .leaf .number⟩,
      ⟨11, "go_package", .leaf .text⟩, ⟨16, "cc_generic_services", .leaf .number⟩,
      ⟨17, "java_generic_services", .leaf .number⟩, ⟨18, "py_generic_services", .leaf .number⟩,
      ⟨42, "php_generic_services", .leaf .number⟩, ⟨23, "deprecated", .leaf .number⟩,
      ⟨31, "cc_enable_arenas", .leaf .number⟩, ⟨36, "objc_class_prefix", .leaf .text⟩,
      ⟨37, "csharp_namespace", .leaf .text⟩, ⟨39, "swift_prefix", .leaf .text⟩,
      ⟨40, "php_class_prefix", .leaf .text⟩, ⟨41, "php_namespace", .leaf .text⟩,
      ⟨44, "php_metadata_namespace", .leaf .text⟩, ⟨45, "ruby_package", .leaf .text⟩,
      ⟨999, "uninterpreted_option", .record "UninterpretedOption"⟩]
  | "MessageOptions" => [
      ⟨1, "message_set_wire_format", .leaf .number⟩,
      ⟨2, "no_standard_descriptor_accessor", .leaf .number⟩, ⟨3, "deprecated", .leaf .number⟩,
      ⟨7, "map_entry", .leaf .number⟩,
      ⟨999, "uninterpreted_option", .record "UninterpretedOption"⟩]
  | "FieldOptions" => [
      ⟨1, "ctype", .leaf .number⟩, ⟨2, "packed", .leaf .number⟩, ⟨6, "jstype", .leaf .number⟩,
      ⟨5, "lazy", .leaf .number⟩, ⟨3, "deprecated", .leaf .number⟩, ⟨10, "weak", .leaf .number⟩,
      ⟨999, "uninterpreted_option", .record "UninterpretedOption"⟩]
  | "OneofOptions" => [⟨999, "uninterpreted_option", .record "UninterpretedOption"⟩]
  | "ExtensionRangeOptions" => [⟨999, "uninterpreted_option", .record "UninterpretedOption"⟩]
  | "EnumOptions" => [
      ⟨2, "allow_alias", .leaf .number⟩, ⟨3, "deprecated", .leaf .number⟩,
      ⟨999, "uninterpreted_option", .record "UninterpretedOption"⟩]
  | "EnumValueOptions" => [
      ⟨1, "deprecated", .leaf .number⟩,
      ⟨999, "uninterpreted_option", .record "UninterpretedOption"⟩]
  | "ServiceOptions" => [
      ⟨33, "deprecated", .leaf .number⟩,
      ⟨999, "uninterpreted_option", .record "UninterpretedOption"⟩]
  | "MethodOptions" => [
      ⟨33, "deprecated", .leaf .number⟩, ⟨34, "idempotency_level", .leaf .number⟩,
      ⟨999, "uninterpreted_option", .record "UninterpretedOption"⟩]
  | "UninterpretedOption" => [
      ⟨2, "name", .record "NamePart"⟩, ⟨3, "identifier_value", .leaf .text⟩,
      ⟨4, "positive_int_value", .leaf .number⟩, ⟨5, "negative_int_value", .leaf .number⟩,
      ⟨6, "double_value", .leaf .double⟩, ⟨7, "string_value", .leaf .bytes⟩,
      ⟨8, "aggregate_value", .leaf .text⟩]
  | "NamePart" => [⟨1, "name_part", .leaf .text⟩, ⟨2, "is_extension", .leaf .number⟩]
  | "SourceCodeInfo" => [⟨1, "location", .record "Location"⟩]
  | "Location" => [
      ⟨1, "path", .leaf .numbers⟩, ⟨2, "span", .leaf .numbers⟩,
      ⟨3, "leading_comments", .leaf .text⟩, ⟨4, "trailing_comments", .leaf .text⟩,
      ⟨6, "leading_detached_comments", .leaf .text⟩]
  | _ => []

/-- The number of a field of a record, zero if it is missing. -/
def number (fields : List (Nat × Node)) (n : Nat) : Int :=
  match Node.int32? fields n with
  | some v => v.toInt
  | none => 0

/-- The text of a field of a record, empty if it is missing. -/
def text (fields : List (Nat × Node)) (n : Nat) : String :=
  (Node.text? fields n).getD ""

/-- The option that a record writes down. -/
def assignmentOfNodes (fields : List (Nat × Node)) : Assignment where
  name := (Node.records fields 2).map fun part =>
    ⟨text part 1, (Node.flag? part 2).getD false⟩
  word := Node.text? fields 3
  positive := (Node.numbers fields 4).getLast?
  negative := (Node.numbers fields 5).getLast?.map UInt64.toInt64
  double := Node.double? fields 6
  string := Node.bytes? fields 7
  aggregate := Node.text? fields 8

/-- The options that a field of a record holds. -/
def optionsOfNodes (fields : List (Nat × Node)) (n : Nat) : Option Options :=
  (Node.content? fields n).map fun content =>
    ⟨content, (Node.records (Node.merged fields n) 999).map assignmentOfNodes⟩

/-- The declared field of a record; a missing type is the first, and a label other than the two
that say so is not repeated. -/
def fieldOfNodes (fields : List (Nat × Node)) : Field where
  name := text fields 1
  number := number fields 3
  repeated := number fields 4 == 3
  type :=
    let code := number fields 5
    ⟨if 1 ≤ code ∧ code ≤ 18 then code.toNat else 1, text fields 6⟩
  extendee := Node.text? fields 2
  defaultText := Node.text? fields 7
  oneofIndex := (Node.int32? fields 9).map Int32.toInt
  jsonName := Node.text? fields 10
  packed :=
    (Node.content? fields 8).map fun _ => (Node.flag? (Node.merged fields 8) 2).getD false
  optionalPresence := (Node.flag? fields 17).getD false
  options := optionsOfNodes fields 8

/-- The ranges of numbers that a field of a record holds. -/
def ranges (fields : List (Nat × Node)) (n : Nat) : List (Int × Int) :=
  (Node.records fields n).map fun range => (number range 1, number range 2)

/-- The option says that several names of an enum may share a number. -/
def Assignment.allowsAlias (a : Assignment) : Bool :=
  a.name == [⟨"allow_alias", false⟩] && a.word == some "true"

/-- The declared enum of a record. -/
def enumOfNodes (fields : List (Nat × Node)) : EnumType where
  name := text fields 1
  values := (Node.records fields 2).map fun value =>
    ⟨text value 1, number value 2, optionsOfNodes value 3⟩
  allowAlias :=
    (Node.flag? (Node.merged fields 3) 2).getD false ||
      (optionsOfNodes fields 3).any fun o => o.assignments.any Assignment.allowsAlias
  reservedRanges := ranges fields 4
  options := optionsOfNodes fields 3

mutual

/-- The declared message of a record. -/
def messageOfNodes (fields : List (Nat × Node)) : MessageType where
  name := text fields 1
  fields := (Node.records fields 2).map fieldOfNodes
  nested := nestedOfNodes fields
  enums := (Node.records fields 4).map enumOfNodes
  extensions := (Node.records fields 6).map fieldOfNodes
  oneofs := (Node.records fields 8).map fun oneof => ⟨text oneof 1, optionsOfNodes oneof 2⟩
  extensionRanges := (Node.records fields 5).map fun range =>
    ⟨(number range 1, number range 2), optionsOfNodes range 3⟩
  reservedRanges := ranges fields 9
  isMapEntry := (Node.flag? (Node.merged fields 7) 7).getD false
  options := optionsOfNodes fields 7

/-- The messages declared inside a message, from the fields of its record. -/
def nestedOfNodes : List (Nat × Node) → List MessageType
  | [] => []
  | (3, .record _ inner) :: rest => messageOfNodes inner :: nestedOfNodes rest
  | _ :: rest => nestedOfNodes rest

end

/-- The declared service of a record. -/
def serviceOfNodes (fields : List (Nat × Node)) : Service where
  name := text fields 1
  methods := (Node.records fields 2).map fun method =>
    ⟨text method 1, text method 2, text method 3, optionsOfNodes method 4⟩
  options := optionsOfNodes fields 3

/-- The declared file of a record. -/
def fileOfNodes (fields : List (Nat × Node)) : File where
  name := text fields 1
  package := text fields 2
  dependencies := Node.texts fields 3
  publicDependencies := (Node.int32s fields 10).map Int32.toInt
  weakDependencies := (Node.int32s fields 11).map Int32.toInt
  messages := (Node.records fields 4).map messageOfNodes
  enums := (Node.records fields 5).map enumOfNodes
  services := (Node.records fields 6).map serviceOfNodes
  extensions := (Node.records fields 7).map fieldOfNodes
  dialect := Node.text? fields 12
  options := optionsOfNodes fields 8

/-- The files of an encoded descriptor set. -/
def decodeFiles (bytes : List UInt8) : Except LocatedFault (List File) :=
  (decode catalogue "FileDescriptorSet" bytes).map fun fields =>
    (Node.records fields 1).map fileOfNodes

end ColumnarRecords.Descriptor.Declaration

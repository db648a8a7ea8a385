import ColumnarRecords.Wire.Layout

/-!
# Faults of descriptor sets

Why a descriptor set does not describe types.
-/

namespace ColumnarRecords.Descriptor

/-- Why a descriptor set cannot be used. -/
inductive Fault where
  /-- The bytes are no descriptor set. -/
  | undecodable (fault : Wire.Layout.LocatedFault)
  /-- A file is in a dialect other than the two known. -/
  | unknownDialect (dialect : String)
  /-- Two files have the same name. -/
  | duplicateFile (file : String)
  /-- A file defines a name twice. -/
  | definedTwice (name : String)
  /-- A name is defined in two files, the other of which is given. -/
  | definedElsewhere (name file : String)
  /-- Two fields differ in case and underscores alone. -/
  | camelCaseConflict (first second : String)
  /-- An enum has no value. -/
  | emptyEnum
  /-- The first value of an enum is not zero where presence is implicit. -/
  | firstValueNotZero
  /-- Two values of an enum share a number. -/
  | duplicateEnumNumber (number : Int)
  /-- A number of an enum is in a reserved range. -/
  | reservedEnumNumber (number first last : Int)
  /-- An imported file is missing. -/
  | missingImport (file : String)
  /-- A position in the list of imports is none. -/
  | invalidImport
  /-- A name is not defined, or not in a file that is imported. -/
  | undefinedName (name : String)
  /-- A reference begins with a name that is defined, but nothing inside that has the full name
  which it then stands for. -/
  | shadowed (reference fullName : String)
  /-- A field with no plain type has no name of its type, at this place of its file. -/
  | missingType (path : List Nat)
  /-- A name stands for something else than is wanted. -/
  | notOfSort (name wanted : String)
  /-- A number is none that a field can have. -/
  | invalidFieldNumber (number : Int)
  /-- Two fields share a number. -/
  | duplicateFieldNumber (number : Int)
  /-- Two fields share a name in JSON, which is given as the second declares it. -/
  | duplicateJsonName (name : String)
  /-- A number is in a reserved range. -/
  | reservedFieldNumber (number first last : Int)
  /-- A number is in a range left to extensions. -/
  | extensionFieldNumber (number first last : Int)
  /-- An extension has a number that its message does not leave to extensions. -/
  | notAnExtensionNumber (message : String) (number : Int)
  /-- A default value does not suit its type. -/
  | invalidDefault (value type : String)
  /-- A field is a member of a oneof that the message does not have. -/
  | invalidOneof
  /-- The options of a declaration cannot be decoded by their type. -/
  | undecodableOptions (fault : Wire.Fault)
  /-- The type of options has no field of the name. -/
  | unknownOption (name : String)
  /-- The value of an option does not suit its type. -/
  | unsuitableOption (name type value : String)
  /-- An option is an extension of another type than that of the options. -/
  | foreignOption (name wanted found : String)
  /-- A name goes on after an option of a type without fields. -/
  | fieldlessOption (name type : String)
  /-- An option is set twice. -/
  | duplicateOption (name : String)
deriving DecidableEq, Repr

/-- The wording of a fault. -/
def Fault.message : Fault → String
  | .undecodable _ => "failed to decode file descriptor set"
  | .unknownDialect dialect => s!"unknown syntax '{dialect}'"
  | .duplicateFile file => s!"a different file named '{file}' has already been added"
  | .definedTwice name => s!"name '{name}' is defined twice"
  | .definedElsewhere name file => s!"name '{name}' is already defined in file '{file}'"
  | .camelCaseConflict first second =>
    s!"camel-case name of field '{first}' conflicts with field '{second}'"
  | .emptyEnum => "enums must have at least one value"
  | .firstValueNotZero => "the first value for proto3 enums must be 0"
  | .duplicateEnumNumber number => s!"enum number '{number}' has already been used"
  | .missingImport file => s!"imported file '{file}' has not been added"
  | .invalidImport => "invalid import index"
  | .undefinedName name => s!"name '{name}' is not defined"
  | .shadowed reference fullName =>
    s!"'{reference}' resolves to '{fullName}', which is not defined"
  | .missingType path =>
    "missing required field at [" ++ ", ".intercalate (path.map toString) ++ "]"
  | .notOfSort name wanted => s!"'{name}' is not {wanted}"
  | .invalidFieldNumber number => s!"invalid field number '{number}'"
  | .duplicateFieldNumber number => s!"field number '{number}' is already used"
  | .duplicateJsonName name => s!"a field with JSON name '{name}' is already defined"
  | .reservedEnumNumber number first last =>
    s!"enum number '{number}' conflicts with reserved range '{first} to {last}'"
  | .reservedFieldNumber number first last =>
    s!"field number '{number}' conflicts with reserved range '{first} to {last}'"
  | .extensionFieldNumber number first last =>
    s!"field number '{number}' conflicts with extension range '{first} to {last}'"
  | .notAnExtensionNumber message number =>
    s!"message '{message}' does not define '{number}' as an extension number"
  | .invalidDefault value type => s!"invalid default value '{value}' for type '{type}'"
  | .invalidOneof => "invalid oneof index"
  | .undecodableOptions _ => "failed to decode file descriptor set"
  | .unknownOption name => s!"option field '{name}' is not defined"
  | .unsuitableOption name type value =>
    s!"expected a value of type '{type}' for option '{name}', but found '{value}'"
  | .foreignOption name wanted found =>
    s!"expected an extension of type '{wanted}' for option '{name}', but found '{found}'"
  | .fieldlessOption name type =>
    s!"cannot set field for option '{name}' value of type '{type}'"
  | .duplicateOption name => s!"option field '{name}' has already been set"

/-- The wordings of what lies behind a fault, from the outside in. -/
def Fault.causes : Fault → List String
  | .undecodable fault => [fault.message]
  | .undecodableOptions fault => ["failed to decode Protobuf message: " ++ fault.description]
  | _ => []

end ColumnarRecords.Descriptor

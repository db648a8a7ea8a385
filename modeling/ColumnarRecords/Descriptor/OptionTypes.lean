import ColumnarRecords.Descriptor.Basic
import ColumnarRecords.Descriptor.Naming

/-!
# The types of options

The options of each sort of declaration are a message of a type of its own. These are the types that
hold where a descriptor set does not declare them itself, as a pool.
-/

namespace ColumnarRecords.Descriptor.OptionTypes

/-- A single field of a kind, a number and a name. -/
def single (kind : Kind) (number : Nat) (name : String) : Field where
  number := number
  name := name
  fullName := name
  jsonName := Naming.jsonName name
  kind := kind
  arity := .single
  isGroup := false
  hasPresence := true
  oneof := none
  isPacked := false
  defaultValue :=
    match kind with
    | .scalar s => s.zero
    | .message _ => .message .empty
    | .enum _ => .enum 0

/-- A repeated field of a kind, a number and a name. -/
def repeated (kind : Kind) (number : Nat) (name : String) : Field :=
  { single kind number name with arity := .list, hasPresence := false }

/-- Single fields of a kind, each with its number. -/
def singles (kind : Kind) (fields : List (Nat × String)) : List Field :=
  fields.map fun f => single kind f.1 f.2

/-- The kind of texts. -/
def text : Kind := .scalar .string

/-- The kind of truth values. -/
def flag : Kind := .scalar .bool

/-- The kind of uninterpreted options, by their position in `messages`. -/
def uninterpreted : Kind := .message 9

/-- The kind of parts of names, by their position in `messages`. -/
def namePart : Kind := .message 10

/-- The kind of sets of features, by their position in `messages`. -/
def features : Kind := .message 11

/-- The options that are still to be looked up, which options of every sort hold. -/
def pending : Field := repeated uninterpreted 999 "uninterpreted_option"

/-- The names of the types of messages and their fields. -/
def messages : List (String × List Field) := [
  ("FileOptions",
    singles text [(1, "java_package"), (8, "java_outer_classname"), (11, "go_package"),
      (36, "objc_class_prefix"), (37, "csharp_namespace"), (39, "swift_prefix"),
      (40, "php_class_prefix"), (41, "php_namespace"), (44, "php_metadata_namespace"),
      (45, "ruby_package")] ++
    singles flag [(10, "java_multiple_files"), (20, "java_generate_equals_and_hash"),
      (27, "java_string_check_utf8"), (16, "cc_generic_services"), (17, "java_generic_services"),
      (18, "py_generic_services"), (42, "php_generic_services"), (23, "deprecated"),
      (31, "cc_enable_arenas")] ++
    [single (.enum 0) 9 "optimize_for", single features 50 "features", pending]),
  ("MessageOptions",
    singles flag [(1, "message_set_wire_format"), (2, "no_standard_descriptor_accessor"),
      (3, "deprecated"), (7, "map_entry"), (11, "deprecated_legacy_json_field_conflicts")] ++
    [single features 12 "features", pending]),
  ("FieldOptions",
    singles flag [(2, "packed"), (5, "lazy"), (15, "unverified_lazy"), (3, "deprecated"),
      (10, "weak"), (16, "debug_redact")] ++
    [single (.enum 1) 1 "ctype", single (.enum 2) 6 "jstype", single (.enum 3) 17 "retention",
      repeated (.enum 4) 19 "targets", repeated (.message 12) 20 "edition_defaults",
      single features 21 "features", pending]),
  ("OneofOptions", [single features 1 "features", pending]),
  ("EnumOptions",
    singles flag [(2, "allow_alias"), (3, "deprecated"),
      (6, "deprecated_legacy_json_field_conflicts")] ++
    [single features 7 "features", pending]),
  ("EnumValueOptions",
    singles flag [(1, "deprecated"), (3, "debug_redact")] ++
    [single features 2 "features", pending]),
  ("ServiceOptions", [single flag 33 "deprecated", single features 34 "features", pending]),
  ("MethodOptions",
    [single flag 33 "deprecated", single (.enum 5) 34 "idempotency_level",
      single features 35 "features", pending]),
  ("ExtensionRangeOptions",
    [repeated (.message 13) 2 "declaration", single (.enum 6) 3 "verification",
      single features 50 "features", pending]),
  ("UninterpretedOption",
    [repeated namePart 2 "name", single text 3 "identifier_value",
      single (.scalar .uint64) 4 "positive_int_value",
      single (.scalar .int64) 5 "negative_int_value", single (.scalar .double) 6 "double_value",
      single (.scalar .bytes) 7 "string_value", single text 8 "aggregate_value"]),
  ("UninterpretedOption.NamePart", [single text 1 "name_part", single flag 2 "is_extension"]),
  ("FeatureSet",
    [single (.enum 8) 1 "field_presence", single (.enum 9) 2 "enum_type",
      single (.enum 10) 3 "repeated_field_encoding", single (.enum 11) 4 "utf8_validation",
      single (.enum 12) 5 "message_encoding", single (.enum 13) 6 "json_format"]),
  ("FieldOptions.EditionDefault", [single (.enum 7) 3 "edition", single text 2 "value"]),
  ("ExtensionRangeOptions.Declaration",
    [single (.scalar .int32) 1 "number", single text 2 "full_name", single text 3 "type",
      single flag 5 "reserved", single flag 6 "repeated"])]

/-- The names of the types of enums and their values. -/
def enums : List (String × List (String × Int32)) := [
  ("FileOptions.OptimizeMode", [("SPEED", 1), ("CODE_SIZE", 2), ("LITE_RUNTIME", 3)]),
  ("FieldOptions.CType", [("STRING", 0), ("CORD", 1), ("STRING_PIECE", 2)]),
  ("FieldOptions.JSType", [("JS_NORMAL", 0), ("JS_STRING", 1), ("JS_NUMBER", 2)]),
  ("FieldOptions.OptionRetention",
    [("RETENTION_UNKNOWN", 0), ("RETENTION_RUNTIME", 1), ("RETENTION_SOURCE", 2)]),
  ("FieldOptions.OptionTargetType",
    [("TARGET_TYPE_UNKNOWN", 0), ("TARGET_TYPE_FILE", 1), ("TARGET_TYPE_EXTENSION_RANGE", 2),
      ("TARGET_TYPE_MESSAGE", 3), ("TARGET_TYPE_FIELD", 4), ("TARGET_TYPE_ONEOF", 5),
      ("TARGET_TYPE_ENUM", 6), ("TARGET_TYPE_ENUM_ENTRY", 7), ("TARGET_TYPE_SERVICE", 8),
      ("TARGET_TYPE_METHOD", 9)]),
  ("MethodOptions.IdempotencyLevel",
    [("IDEMPOTENCY_UNKNOWN", 0), ("NO_SIDE_EFFECTS", 1), ("IDEMPOTENT", 2)]),
  ("ExtensionRangeOptions.VerificationState", [("DECLARATION", 0), ("UNVERIFIED", 1)]),
  ("Edition",
    [("EDITION_UNKNOWN", 0), ("EDITION_PROTO2", 998), ("EDITION_PROTO3", 999),
      ("EDITION_2023", 1000), ("EDITION_1_TEST_ONLY", 1), ("EDITION_2_TEST_ONLY", 2),
      ("EDITION_99997_TEST_ONLY", 99997), ("EDITION_99998_TEST_ONLY", 99998),
      ("EDITION_99999_TEST_ONLY", 99999)]),
  ("FeatureSet.FieldPresence",
    [("FIELD_PRESENCE_UNKNOWN", 0), ("EXPLICIT", 1), ("IMPLICIT", 2), ("LEGACY_REQUIRED", 3)]),
  ("FeatureSet.EnumType", [("ENUM_TYPE_UNKNOWN", 0), ("OPEN", 1), ("CLOSED", 2)]),
  ("FeatureSet.RepeatedFieldEncoding",
    [("REPEATED_FIELD_ENCODING_UNKNOWN", 0), ("PACKED", 1), ("EXPANDED", 2)]),
  ("FeatureSet.Utf8Validation",
    [("UTF8_VALIDATION_UNKNOWN", 0), ("VERIFY", 2), ("NONE", 3)]),
  ("FeatureSet.MessageEncoding",
    [("MESSAGE_ENCODING_UNKNOWN", 0), ("LENGTH_PREFIXED", 1), ("DELIMITED", 2)]),
  ("FeatureSet.JsonFormat",
    [("JSON_FORMAT_UNKNOWN", 0), ("ALLOW", 1), ("LEGACY_BEST_EFFORT", 2)])]

/-- The types as a pool. -/
def pool : Pool where
  messages := messages.map fun m =>
    ⟨"google.protobuf." ++ m.1, FieldTable.empty.insertAll m.2, .empty, [], false⟩
  enums := enums.map fun e => ⟨"google.protobuf." ++ e.1, e.2⟩

end ColumnarRecords.Descriptor.OptionTypes

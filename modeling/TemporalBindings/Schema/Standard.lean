import TemporalBindings.Schema.Types.Reader

/-!
# TemporalBindings.Schema.Standard

The option messages of descriptors, as the descriptor language itself declares them.
There are two sets of them:

* the basic types are those with which descriptors are read, whatever a set of
  descriptors declares, and in which the options that bindings depend on, such as
  `deprecated` and `go_package`, are looked up;
* the full types have the options that were added later as well, and stand in for types
  that a set of descriptors does not declare.
-/

namespace TemporalBindings.Schema

open Wire

namespace Standard

/-! ## Fields -/

/-- An optional field. -/
def optional (name : String) (number : Nat) (kind : FieldKind) (default : Leaf) : FieldType :=
  { name, number, kind, repeated := false, packed := false, explicit := true, oneof := none,
    default }

/-- A repeated field. -/
def repeated (name : String) (number : Nat) (kind : FieldKind) (default : Leaf) : FieldType :=
  { name, number, kind, repeated := true, packed := false, explicit := false, oneof := none,
    default }

/-- An optional truth value. -/
def flag (name : String) (number : Nat) : FieldType :=
  optional name number (.scalar .bool) (.bool false)

/-- An optional text. -/
def text (name : String) (number : Nat) : FieldType :=
  optional name number (.scalar .string) (.string "")

/-- An optional value of an enum whose first number is given. -/
def choice (name : String) (number : Nat) (first : Int32) : FieldType :=
  optional name number .enum (.enum first)

/-- An optional message of a type of the standard. -/
def nested (name : String) (number : Nat) (type : String) : FieldType :=
  optional name number (.message ("google.protobuf." ++ type)) (.bool false)

/-- Repeated messages of a type of the standard. -/
def nestedList (name : String) (number : Nat) (type : String) : FieldType :=
  repeated name number (.message ("google.protobuf." ++ type)) (.bool false)

/-- The features of an element. -/
def features (number : Nat) : FieldType :=
  nested "features" number "FeatureSet"

/-! ## Basic types -/

/-- A type of the standard. -/
def type (name : String) (fields : List FieldType) : MessageType :=
  ⟨"google.protobuf." ++ name, fields⟩

/-- A type of options. All of them may have options that have not been interpreted by the
compiler. -/
def options (name : String) (fields : List FieldType) : MessageType :=
  type name (fields ++ [nestedList "uninterpreted_option" 999 "UninterpretedOption"])

/-- Options of files. -/
def fileOptions : MessageType :=
  options "FileOptions"
    [text "java_package" 1, text "java_outer_classname" 8, choice "optimize_for" 9 1,
     flag "java_multiple_files" 10, text "go_package" 11, flag "cc_generic_services" 16,
     flag "java_generic_services" 17, flag "py_generic_services" 18,
     flag "java_generate_equals_and_hash" 20, flag "deprecated" 23,
     flag "java_string_check_utf8" 27, flag "cc_enable_arenas" 31, text "objc_class_prefix" 36,
     text "csharp_namespace" 37, text "swift_prefix" 39, text "php_class_prefix" 40,
     text "php_namespace" 41, flag "php_generic_services" 42, text "php_metadata_namespace" 44,
     text "ruby_package" 45]

/-- Options of messages. -/
def messageOptions : MessageType :=
  options "MessageOptions"
    [flag "message_set_wire_format" 1, flag "no_standard_descriptor_accessor" 2,
     flag "deprecated" 3, flag "map_entry" 7]

/-- Options of fields. -/
def fieldOptions : MessageType :=
  options "FieldOptions"
    [choice "ctype" 1 0, flag "packed" 2, flag "deprecated" 3, flag "lazy" 5,
     choice "jstype" 6 0, flag "weak" 10]

/-- Options of oneofs. -/
def oneofOptions : MessageType :=
  options "OneofOptions" []

/-- Options of enums. -/
def enumOptions : MessageType :=
  options "EnumOptions" [flag "allow_alias" 2, flag "deprecated" 3]

/-- Options of enum values. -/
def enumValueOptions : MessageType :=
  options "EnumValueOptions" [flag "deprecated" 1]

/-- Options of services. -/
def serviceOptions : MessageType :=
  options "ServiceOptions" [flag "deprecated" 33]

/-- Options of methods. -/
def methodOptions : MessageType :=
  options "MethodOptions" [flag "deprecated" 33, choice "idempotency_level" 34 0]

/-- Options of ranges of extension numbers. -/
def rangeOptions : MessageType :=
  options "ExtensionRangeOptions" []

/-- An option that has not been interpreted by the compiler. -/
def uninterpretedOption : MessageType :=
  type "UninterpretedOption"
    [nestedList "name" 2 "UninterpretedOption.NamePart", text "identifier_value" 3,
     optional "positive_int_value" 4 (.scalar .uint64) (.u64 0),
     optional "negative_int_value" 5 (.scalar .int64) (.i64 0),
     optional "double_value" 6 (.scalar .double) (.f64 .zero),
     optional "string_value" 7 (.scalar .bytes) (.bytes []), text "aggregate_value" 8]

/-- A part of the name of an uninterpreted option. -/
def namePart : MessageType :=
  type "UninterpretedOption.NamePart" [text "name_part" 1, flag "is_extension" 2]

/-- The basic types. What they do not declare is passed over. -/
def basic : Types :=
  { messages :=
      [fileOptions, messageOptions, fieldOptions, oneofOptions, enumOptions, enumValueOptions,
       serviceOptions, methodOptions, rangeOptions, uninterpretedOption, namePart]
    extensions := []
    keepsUndeclared := false }

/-! ## Full types -/

/-- The type without the field of one number and with more fields. -/
def revised (t : MessageType) (removed : Option Nat) (added : List FieldType) : MessageType :=
  ⟨t.name, t.fields.filter (some ·.number ≠ removed) ++ added⟩

/-- The type with more fields. -/
def extended (t : MessageType) (added : List FieldType) : MessageType :=
  revised t none added

/-- A default of an option in an edition of the language. -/
def editionDefault : MessageType :=
  type "FieldOptions.EditionDefault" [text "value" 2, choice "edition" 3 0]

/-- Features of an element. -/
def featureSet : MessageType :=
  type "FeatureSet"
    [choice "field_presence" 1 0, choice "enum_type" 2 0, choice "repeated_field_encoding" 3 0,
     choice "utf8_validation" 4 0, choice "message_encoding" 5 0, choice "json_format" 6 0]

/-- What is known of an extension number that is set apart. -/
def declaration : MessageType :=
  type "ExtensionRangeOptions.Declaration"
    [optional "number" 1 (.scalar .int32) (.i32 0), text "full_name" 2, text "type" 3,
     flag "reserved" 5, flag "repeated" 6]

/-- The full types. -/
def full : Types :=
  { messages :=
      [revised fileOptions (some 42) [features 50],
       extended messageOptions [flag "deprecated_legacy_json_field_conflicts" 11, features 12],
       extended fieldOptions
         [flag "unverified_lazy" 15, flag "debug_redact" 16, choice "retention" 17 0,
          repeated "targets" 19 .enum (.enum 0),
          nestedList "edition_defaults" 20 "FieldOptions.EditionDefault", features 21],
       extended oneofOptions [features 1],
       extended enumOptions [flag "deprecated_legacy_json_field_conflicts" 6, features 7],
       extended enumValueOptions [features 2, flag "debug_redact" 3],
       extended serviceOptions [features 34],
       extended methodOptions [features 35],
       extended rangeOptions
         [nestedList "declaration" 2 "ExtensionRangeOptions.Declaration",
          choice "verification" 3 1, features 50],
       uninterpretedOption, namePart, editionDefault, featureSet, declaration]
    extensions := [] }

end Standard

/-! ## Options -/

/-- The options of one element: whether it has any, all of them as they are written,
some of which may be extensions that become known only later, and the message of the
basic type that they make. -/
structure Options where
  given : Bool
  bytes : List UInt8
  basic : Message

namespace Options

/-- No options. -/
def empty (type : MessageType) : Options :=
  ⟨false, [], .empty type⟩

/-- The options with more of them, with `depth` levels of nesting left. Several options
messages of one element are one message in several pieces. All of their fields are kept as
they are written, and so each takes as much nesting as if it were passed over. -/
def add? (o : Options) (depth : Nat) (bytes : List UInt8) : Option Options := do
  let fields ← readFields bytes
  let m ← Standard.basic.readInto depth o.basic bytes
  if fields.all (Field.fits depth) then some ⟨true, o.bytes ++ bytes, m⟩ else none

/-- The full name of the type of the options. -/
def typeName (o : Options) : String :=
  o.basic.type.name

/-- The value of a basic option, if it is set. -/
def set? (o : Options) (name : String) : Option Value :=
  (o.basic.type.fieldNamed? name).bind fun t => o.basic.stored.lookup t.number

/-- Whether a basic option is set to true. -/
def isSet (o : Options) (name : String) : Bool :=
  ((o.set? name).bind Value.bool?).getD false

end Options

end TemporalBindings.Schema

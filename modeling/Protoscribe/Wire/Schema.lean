set_option autoImplicit false

/-! # The schema of requests

The messages that a request is made of, with the number, the name and the form of each field.
Most fields have no part in generating code; they are listed because their form is checked all
the same.
-/

namespace Protoscribe.Wire

/-- The messages in a request. -/
inductive Kind where
  | request | version | file | message | extensionRange | messageRange | field | oneof | enum
  | enumRange | enumValue | service | method | fileOptions | messageOptions | fieldOptions
  | oneofOptions | enumOptions | enumValueOptions | serviceOptions | methodOptions
  | extensionRangeOptions | uninterpretedOption | namePart | sourceInfo | location
  deriving DecidableEq, Repr

/-- The form of a field's value. -/
inductive Form where
  /-- A number, a truth value or the number of an enum value. -/
  | number
  /-- Numbers, one by one or together. -/
  | numbers
  /-- Eight bytes. -/
  | double
  | text
  | bytes
  | message (kind : Kind)

/-- A field of the schema. -/
structure Entry where
  number : Nat
  name : String
  form : Form

namespace Kind

/-- The name of a message in fault texts. -/
def name : Kind → String
  | .request => "CodeGeneratorRequest"
  | .version => "Version"
  | .file => "FileDescriptorProto"
  | .message => "DescriptorProto"
  | .extensionRange => "ExtensionRange"
  | .messageRange => "ReservedRange"
  | .field => "FieldDescriptorProto"
  | .oneof => "OneofDescriptorProto"
  | .enum => "EnumDescriptorProto"
  | .enumRange => "EnumReservedRange"
  | .enumValue => "EnumValueDescriptorProto"
  | .service => "ServiceDescriptorProto"
  | .method => "MethodDescriptorProto"
  | .fileOptions => "FileOptions"
  | .messageOptions => "MessageOptions"
  | .fieldOptions => "FieldOptions"
  | .oneofOptions => "OneofOptions"
  | .enumOptions => "EnumOptions"
  | .enumValueOptions => "EnumValueOptions"
  | .serviceOptions => "ServiceOptions"
  | .methodOptions => "MethodOptions"
  | .extensionRangeOptions => "ExtensionRangeOptions"
  | .uninterpretedOption => "UninterpretedOption"
  | .namePart => "NamePart"
  | .sourceInfo => "SourceCodeInfo"
  | .location => "Location"

/-- The entry for options that the writer of the file could not interpret. -/
def uninterpreted : Entry := ⟨999, "uninterpreted_option", .message .uninterpretedOption⟩

/-- The fields of a range of numbers. -/
def range : List Entry := [⟨1, "start", .number⟩, ⟨2, "end", .number⟩]

/-- The fields of a message. -/
def entries : Kind → List Entry
  | .request =>
    [⟨1, "file_to_generate", .text⟩, ⟨2, "parameter", .text⟩,
      ⟨3, "compiler_version", .message .version⟩, ⟨15, "proto_file", .message .file⟩]
  | .version =>
    [⟨1, "major", .number⟩, ⟨2, "minor", .number⟩, ⟨3, "patch", .number⟩, ⟨4, "suffix", .text⟩]
  | .file =>
    [⟨1, "name", .text⟩, ⟨2, "package", .text⟩, ⟨3, "dependency", .text⟩,
      ⟨4, "message_type", .message .message⟩, ⟨5, "enum_type", .message .enum⟩,
      ⟨6, "service", .message .service⟩, ⟨7, "extension", .message .field⟩,
      ⟨8, "options", .message .fileOptions⟩, ⟨9, "source_code_info", .message .sourceInfo⟩,
      ⟨10, "public_dependency", .numbers⟩, ⟨11, "weak_dependency", .numbers⟩,
      ⟨12, "syntax", .text⟩]
  | .message =>
    [⟨1, "name", .text⟩, ⟨2, "field", .message .field⟩, ⟨3, "nested_type", .message .message⟩,
      ⟨4, "enum_type", .message .enum⟩, ⟨5, "extension_range", .message .extensionRange⟩,
      ⟨6, "extension", .message .field⟩, ⟨7, "options", .message .messageOptions⟩,
      ⟨8, "oneof_decl", .message .oneof⟩, ⟨9, "reserved_range", .message .messageRange⟩,
      ⟨10, "reserved_name", .text⟩]
  | .extensionRange => range ++ [⟨3, "options", .message .extensionRangeOptions⟩]
  | .messageRange => range
  | .field =>
    [⟨1, "name", .text⟩, ⟨2, "extendee", .text⟩, ⟨3, "number", .number⟩, ⟨4, "label", .number⟩,
      ⟨5, "r#type", .number⟩, ⟨6, "type_name", .text⟩, ⟨7, "default_value", .text⟩,
      ⟨8, "options", .message .fieldOptions⟩, ⟨9, "oneof_index", .number⟩,
      ⟨10, "json_name", .text⟩, ⟨17, "proto3_optional", .number⟩]
  | .oneof => [⟨1, "name", .text⟩, ⟨2, "options", .message .oneofOptions⟩]
  | .enum =>
    [⟨1, "name", .text⟩, ⟨2, "value", .message .enumValue⟩,
      ⟨3, "options", .message .enumOptions⟩, ⟨4, "reserved_range", .message .enumRange⟩,
      ⟨5, "reserved_name", .text⟩]
  | .enumRange => range
  | .enumValue =>
    [⟨1, "name", .text⟩, ⟨2, "number", .number⟩, ⟨3, "options", .message .enumValueOptions⟩]
  | .service =>
    [⟨1, "name", .text⟩, ⟨2, "method", .message .method⟩,
      ⟨3, "options", .message .serviceOptions⟩]
  | .method =>
    [⟨1, "name", .text⟩, ⟨2, "input_type", .text⟩, ⟨3, "output_type", .text⟩,
      ⟨4, "options", .message .methodOptions⟩, ⟨5, "client_streaming", .number⟩,
      ⟨6, "server_streaming", .number⟩]
  | .fileOptions =>
    [⟨1, "java_package", .text⟩, ⟨8, "java_outer_classname", .text⟩,
      ⟨9, "optimize_for", .number⟩, ⟨10, "java_multiple_files", .number⟩,
      ⟨11, "go_package", .text⟩, ⟨16, "cc_generic_services", .number⟩,
      ⟨17, "java_generic_services", .number⟩, ⟨18, "py_generic_services", .number⟩,
      ⟨20, "java_generate_equals_and_hash", .number⟩, ⟨23, "deprecated", .number⟩,
      ⟨27, "java_string_check_utf8", .number⟩, ⟨31, "cc_enable_arenas", .number⟩,
      ⟨36, "objc_class_prefix", .text⟩, ⟨37, "csharp_namespace", .text⟩,
      ⟨39, "swift_prefix", .text⟩, ⟨40, "php_class_prefix", .text⟩,
      ⟨41, "php_namespace", .text⟩, ⟨42, "php_generic_services", .number⟩,
      ⟨44, "php_metadata_namespace", .text⟩, ⟨45, "ruby_package", .text⟩, uninterpreted]
  | .messageOptions =>
    [⟨1, "message_set_wire_format", .number⟩, ⟨2, "no_standard_descriptor_accessor", .number⟩,
      ⟨3, "deprecated", .number⟩, ⟨7, "map_entry", .number⟩, uninterpreted]
  | .fieldOptions =>
    [⟨1, "ctype", .number⟩, ⟨2, "packed", .number⟩, ⟨3, "deprecated", .number⟩,
      ⟨5, "lazy", .number⟩, ⟨6, "jstype", .number⟩, ⟨10, "weak", .number⟩, uninterpreted]
  | .oneofOptions => [uninterpreted]
  | .enumOptions =>
    [⟨2, "allow_alias", .number⟩, ⟨3, "deprecated", .number⟩, uninterpreted]
  | .enumValueOptions => [⟨1, "deprecated", .number⟩, uninterpreted]
  | .serviceOptions => [⟨33, "deprecated", .number⟩, uninterpreted]
  | .methodOptions =>
    [⟨33, "deprecated", .number⟩, ⟨34, "idempotency_level", .number⟩, uninterpreted]
  | .extensionRangeOptions => [uninterpreted]
  | .uninterpretedOption =>
    [⟨2, "name", .message .namePart⟩, ⟨3, "identifier_value", .text⟩,
      ⟨4, "positive_int_value", .number⟩, ⟨5, "negative_int_value", .number⟩,
      ⟨6, "double_value", .double⟩, ⟨7, "string_value", .bytes⟩, ⟨8, "aggregate_value", .text⟩]
  | .namePart => [⟨1, "name_part", .text⟩, ⟨2, "is_extension", .number⟩]
  | .sourceInfo => [⟨1, "location", .message .location⟩]
  | .location =>
    [⟨1, "path", .numbers⟩, ⟨2, "span", .numbers⟩, ⟨3, "leading_comments", .text⟩,
      ⟨4, "trailing_comments", .text⟩, ⟨6, "leading_detached_comments", .text⟩]

/-- The field of a message with a given number. -/
def fieldAt? (kind : Kind) (number : Nat) : Option Entry :=
  kind.entries.find? (·.number = number)

end Kind

end Protoscribe.Wire

set_option autoImplicit false

/-! # Descriptors

The description of proto files that a generator receives: files with their enums, messages and
services, each as far as it decides the generated code. Where a descriptor may leave a value
unset and that matters, the field ends in `?`; everything else reads as its default when it is
not set.
-/

namespace Protoscribe

/-! ## Fields -/

/-- The declared type of a field. -/
inductive FieldType where
  | double | float | int64 | uint64 | int32 | fixed64 | fixed32 | bool | string | group
  | message | bytes | uint32 | enum | sfixed32 | sfixed64 | sint32 | sint64
  deriving DecidableEq, Repr

namespace FieldType

/-- The type with a given code; a code that no type has reads as `double`. -/
def ofCode (code : Int) : FieldType :=
  if code = 2 then .float
  else if code = 3 then .int64
  else if code = 4 then .uint64
  else if code = 5 then .int32
  else if code = 6 then .fixed64
  else if code = 7 then .fixed32
  else if code = 8 then .bool
  else if code = 9 then .string
  else if code = 10 then .group
  else if code = 11 then .message
  else if code = 12 then .bytes
  else if code = 13 then .uint32
  else if code = 14 then .enum
  else if code = 15 then .sfixed32
  else if code = 16 then .sfixed64
  else if code = 17 then .sint32
  else if code = 18 then .sint64
  else .double

/-- Whether values of the type are numbers. -/
def isNumeric : FieldType → Bool
  | .bool | .string | .group | .message | .bytes | .enum => false
  | _ => true

/-- Whether several values of the type may share one length-delimited record. -/
def isPackable : FieldType → Bool
  | .string | .group | .message | .bytes => false
  | _ => true

end FieldType

/-- How often a field may occur. -/
inductive Label where
  | optional | required | repeated
  deriving DecidableEq, Repr

namespace Label

/-- The label with a given code; a code that no label has reads as `optional`. -/
def ofCode (code : Int) : Label :=
  if code = 2 then .required else if code = 3 then .repeated else .optional

end Label

/-- A field of a message. -/
structure FieldDescriptor where
  name? : Option String
  number? : Option Int
  label : Label
  typeCode? : Option Int
  /-- The qualified name of the message or enum that the field holds. -/
  typeName? : Option String
  /-- The declared default, empty when there is none. -/
  defaultValue : String
  /-- The position of the oneof the field belongs to. -/
  oneofIndex? : Option Int
  /-- Whether a field without a label in the newer syntax is marked `optional`. -/
  proto3Optional : Bool
  /-- Whether the field asks for packed encoding. -/
  packed : Bool
  /-- Whether the field asks for its 64-bit values as strings. -/
  jsString : Bool
  deriving DecidableEq, Repr

namespace FieldDescriptor

def name (f : FieldDescriptor) : String := f.name?.getD ""

def number (f : FieldDescriptor) : Int := f.number?.getD 0

/-- The declared type; `double` when none is set. -/
def type (f : FieldDescriptor) : FieldType :=
  match f.typeCode? with
  | none => .double
  | some code => .ofCode code

def typeName (f : FieldDescriptor) : String := f.typeName?.getD ""

def isRepeated (f : FieldDescriptor) : Bool := f.label = .repeated

def isMessage (f : FieldDescriptor) : Bool := f.type = .message

/-- Whether the field may use packed encoding. -/
def isPackable (f : FieldDescriptor) : Bool := f.isRepeated && f.type.isPackable

/-- Whether the field uses packed encoding. -/
def isPacked (f : FieldDescriptor) : Bool := f.isPackable && f.packed

/-- The position of the field's oneof as a 64-bit unsigned number. -/
def oneof? (f : FieldDescriptor) : Option Nat :=
  f.oneofIndex?.map fun index : Int => (index % UInt64.size).toNat

end FieldDescriptor

/-! ## Enums, messages and services -/

/-- A value of an enum. -/
structure EnumValue where
  name : String
  number : Int

/-- An enum. -/
structure EnumDescriptor where
  name : String
  values : List EnumValue

/-- A message with the enums and messages declared in it. -/
structure MessageDescriptor where
  name? : Option String
  fields : List FieldDescriptor
  nested : List MessageDescriptor
  enums : List EnumDescriptor
  /-- The names of the oneofs, in order. -/
  oneofs : List String
  /-- Whether the message stands for the entries of a map field. -/
  isMapEntry : Bool

/-- The two fields of a map entry. -/
structure MapEntry where
  key : FieldDescriptor
  value : FieldDescriptor

namespace MessageDescriptor

def name (m : MessageDescriptor) : String := m.name?.getD ""

/-- The messages declared in a message, map entries left out. -/
def ordinaryNested (m : MessageDescriptor) : List MessageDescriptor :=
  m.nested.filter (!·.isMapEntry)

/-- The first fields numbered 1 and 2. -/
def keyValue? (m : MessageDescriptor) : Option MapEntry :=
  match m.fields.find? (·.number = 1), m.fields.find? (·.number = 2) with
  | some key, some value => some ⟨key, value⟩
  | _, _ => none

end MessageDescriptor

/-- A method of a service. -/
structure MethodDescriptor where
  name : String
  inputType? : Option String
  outputType? : Option String
  clientStreaming : Bool
  serverStreaming : Bool

/-- A service. -/
structure ServiceDescriptor where
  name? : Option String
  methods : List MethodDescriptor

namespace ServiceDescriptor

def name (s : ServiceDescriptor) : String := s.name?.getD ""

end ServiceDescriptor

/-! ## Files -/

/-- A proto file. -/
structure FileDescriptor where
  name : String
  package : String
  /-- The name of the syntax the file is written in. -/
  syntaxName : String
  /-- The names of the files it imports. -/
  dependencies : List String
  messages : List MessageDescriptor
  enums : List EnumDescriptor
  services : List ServiceDescriptor

namespace FileDescriptor

/-- The file about which nothing is known. -/
def blank : FileDescriptor := ⟨"", "", "", [], [], [], []⟩

/-- Whether a field of the file may be absent from a value. In the syntax `proto3` that is every
field that is not required or is marked optional; otherwise it is what the label says. -/
def mayOmit (file : FileDescriptor) (f : FieldDescriptor) : Bool :=
  if file.syntaxName = "proto3" then f.label ≠ .required || f.proto3Optional
  else f.label = .optional

end FileDescriptor

/-- The version of the compiler that asks for code. -/
structure Version where
  major : Int
  minor : Int
  patch : Int
  suffix : String

end Protoscribe

import Protoscribe.Descriptor
import Protoscribe.Failure

set_option autoImplicit false

/-! # The routines that carry a field on the wire

Readers and writers of the message runtime are named after the type of the value. The name starts
with `Packed` for packed fields and, among writers only, with `Repeated` for other fields that
repeat, since a reader always reads one value. It ends in `String` for 64-bit values handed over
as strings.
-/

namespace Protoscribe

/-- The runtime's name of a type; groups have none. -/
def FieldType.routine? : FieldType → Option String
  | .double => some "Double"
  | .float => some "Float"
  | .int64 => some "Int64"
  | .uint64 => some "Uint64"
  | .int32 => some "Int32"
  | .fixed64 => some "Fixed64"
  | .fixed32 => some "Fixed32"
  | .bool => some "Bool"
  | .string => some "String"
  | .group => none
  | .message => some "Message"
  | .bytes => some "Bytes"
  | .uint32 => some "Uint32"
  | .enum => some "Enum"
  | .sfixed32 => some "Sfixed32"
  | .sfixed64 => some "Sfixed64"
  | .sint32 => some "Sint32"
  | .sint64 => some "Sint64"

namespace FieldDescriptor

/-- The name of a routine, from its first part. -/
def routineWith (f : FieldDescriptor) (start : String) : Except Failure String :=
  match f.type.routine? with
  | none => .error (.groupField f.name)
  | some name => .ok (start ++ name ++ (if f.jsString then "String" else ""))

/-- The name of the routine that writes a field. -/
def writeRoutine (f : FieldDescriptor) : Except Failure String :=
  f.routineWith (if f.isPacked then "Packed" else if f.isRepeated then "Repeated" else "")

/-- The name of the routine that reads a field. -/
def readRoutine (f : FieldDescriptor) : Except Failure String :=
  f.routineWith (if f.isPacked then "Packed" else "")

end FieldDescriptor

end Protoscribe

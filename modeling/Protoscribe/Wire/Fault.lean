set_option autoImplicit false

/-! # Faults in binary messages

Why bytes cannot be read as a message, and where: the path names the fields that were being read,
the innermost first. A fault in a key or in a field that the schema does not know has no entry of
its own.
-/

namespace Protoscribe.Wire

/-- How the bytes of a field are delimited. -/
inductive WireType where
  | varint
  | fixed64
  | delimited
  | startGroup
  | endGroup
  | fixed32
  deriving DecidableEq, Repr

namespace WireType

/-- The wire type with a given number. -/
def ofNumber? (n : Nat) : Option WireType :=
  if n = 0 then some .varint
  else if n = 1 then some .fixed64
  else if n = 2 then some .delimited
  else if n = 3 then some .startGroup
  else if n = 4 then some .endGroup
  else if n = 5 then some .fixed32
  else none

/-- The name of a wire type in fault texts. -/
def text : WireType → String
  | .varint => "Varint"
  | .fixed64 => "SixtyFourBit"
  | .delimited => "LengthDelimited"
  | .startGroup => "StartGroup"
  | .endGroup => "EndGroup"
  | .fixed32 => "ThirtyTwoBit"

end WireType

/-- What is wrong with the bytes. -/
inductive Cause where
  | varint
  | keyRange (key : Nat)
  | wireTypeRange (number : Nat)
  | fieldZero
  | wireType (actual expected : WireType)
  | tooShort
  | notText
  | tooLong
  | tooDeep
  | endOfGroup
  deriving DecidableEq, Repr

namespace Cause

/-- The text of a cause. -/
def text : Cause → String
  | .varint => "invalid varint"
  | .keyRange key => "invalid key value: " ++ toString key
  | .wireTypeRange number => "invalid wire type value: " ++ toString number
  | .fieldZero => "invalid tag value: 0"
  | .wireType actual expected =>
    "invalid wire type: " ++ actual.text ++ " (expected " ++ expected.text ++ ")"
  | .tooShort => "buffer underflow"
  | .notText => "invalid string value: data is not UTF-8 encoded"
  | .tooLong => "delimited length exceeded"
  | .tooDeep => "recursion limit reached"
  | .endOfGroup => "unexpected end group tag"

end Cause

/-- A cause and the fields that were being read. -/
structure Fault where
  path : List String
  cause : Cause

namespace Fault

/-- A fault outside all fields. -/
def ofCause (cause : Cause) : Fault := ⟨[], cause⟩

/-- The fault as seen from the field around it. -/
def within (fault : Fault) (field : String) : Fault := ⟨fault.path ++ [field], fault.cause⟩

/-- The text of a fault. -/
def text (fault : Fault) : String :=
  "failed to decode Protobuf message: " ++ String.join (fault.path.map (· ++ ": "))
    ++ fault.cause.text

/-- The text of a fault among the reasons why no code is generated. -/
def report (fault : Fault) : String := "decode error: " ++ fault.text

end Fault

end Protoscribe.Wire

import Protoscribe.Wire.Record
import Protoscribe.Request

set_option autoImplicit false

/-! # Requests from bytes

The fields of a descriptor, picked from the records of its message. Of a single value that occurs
more than once the last counts, a single message that does is the message of all its records, and
the occurrences of a list are its elements.
-/

namespace Protoscribe

namespace Wire

/-! ## Picking fields -/

/-- The texts of a field. -/
def texts (number : Nat) (records : List Record) : List String :=
  records.filterMap fun
    | (n, .text s) => if n = number then some s else none
    | _ => none

/-- The text of a field, when it is set. -/
def text? (number : Nat) (records : List Record) : Option String :=
  (texts number records).getLast?

/-- The text of a field, empty when it is not set. -/
def text (number : Nat) (records : List Record) : String := (text? number records).getD ""

/-- The number of a field, when it is set. -/
def number? (number : Nat) (records : List Record) : Option Nat :=
  (records.filterMap fun
    | (n, .number value) => if n = number then some value else none
    | _ => none).getLast?

/-- A number as a signed number of 32 bits. -/
def signed32 (n : Nat) : Int := Int.bmod n UInt32.size

/-- The signed number of a field, when it is set. -/
def int? (number : Nat) (records : List Record) : Option Int :=
  (number? number records).map signed32

/-- The signed number of a field, zero when it is not set. -/
def int (number : Nat) (records : List Record) : Int := (int? number records).getD 0

/-- The truth value of a field, false when it is not set. -/
def flag (number : Nat) (records : List Record) : Bool := (number? number records).getD 0 ≠ 0

/-- The messages of a field. -/
def messages (number : Nat) (records : List Record) : List (List Record) :=
  records.filterMap fun
    | (n, .message inner) => if n = number then some inner else none
    | _ => none

/-- The records of a single message. -/
def merged (number : Nat) (records : List Record) : List Record :=
  (messages number records).flatten

/-! ## Descriptors -/

/-- The code of the option that hands 64-bit values over as strings. -/
def stringCode : Int := 1

/-- A field from its records. -/
def fieldOf (records : List Record) : FieldDescriptor :=
  let options := merged 8 records
  { name? := text? 1 records
    number? := int? 3 records
    label := .ofCode (int 4 records)
    typeCode? := int? 5 records
    typeName? := text? 6 records
    defaultValue := text 7 records
    oneofIndex? := int? 9 records
    proto3Optional := flag 17 records
    packed := flag 2 options
    jsString := int 6 options = stringCode }

/-- An enum from its records. -/
def enumOf (records : List Record) : EnumDescriptor :=
  ⟨text 1 records, (messages 2 records).map fun value => ⟨text 1 value, int 2 value⟩⟩

/-- A message from its records and the messages declared in it. -/
def messageWith (nested : List MessageDescriptor) (records : List Record) : MessageDescriptor :=
  { name? := text? 1 records
    fields := (messages 2 records).map fieldOf
    nested
    enums := (messages 4 records).map enumOf
    oneofs := (messages 8 records).map (text 1)
    isMapEntry := flag 7 (merged 7 records) }

mutual

/-- The messages that a value describes: one, when it is a message. -/
def Value.described : Value → List MessageDescriptor
  | .message records => [messageWith (nestedOf 3 records) records]
  | _ => []

/-- The messages that a field describes. -/
def nestedOf (number : Nat) : List (Nat × Value) → List MessageDescriptor
  | [] => []
  | (n, value) :: rest =>
    if n = number then value.described ++ nestedOf number rest else nestedOf number rest

end

/-- A method from its records. -/
def methodOf (records : List Record) : MethodDescriptor :=
  ⟨text 1 records, text? 2 records, text? 3 records, flag 5 records, flag 6 records⟩

/-- A service from its records. -/
def serviceOf (records : List Record) : ServiceDescriptor :=
  ⟨text? 1 records, (messages 2 records).map methodOf⟩

/-- A file from its records. -/
def fileOf (records : List Record) : FileDescriptor :=
  { name := text 1 records
    package := text 2 records
    syntaxName := text 12 records
    dependencies := texts 3 records
    messages := nestedOf 4 records
    enums := (messages 5 records).map enumOf
    services := (messages 6 records).map serviceOf }

/-- A version from its records. -/
def versionOf (records : List Record) : Version :=
  ⟨int 1 records, int 2 records, int 3 records, text 4 records⟩

/-- The version of a request, when there is one. -/
def version? (records : List Record) : Option Version :=
  match messages 3 records with
  | [] => none
  | occurrences => some (versionOf occurrences.flatten)

/-- A request from its records. -/
def requestOf (records : List Record) : Request :=
  ⟨texts 1 records, text 2 records, version? records, (messages 15 records).map fileOf⟩

end Wire

/-- The request that bytes hold. -/
def Request.ofBytes (data : ByteArray) : Except Wire.Fault Request :=
  (Wire.requestRecords data).map Wire.requestOf

end Protoscribe

import Protoscribe.Scope

set_option autoImplicit false

/-! # Slots

A slot is a field together with the decision how its values are stored: as a map, as messages or
as scalars, once or as a list. Everything that is generated for a field follows this one
decision.
-/

namespace Protoscribe

/-- How the values of a field are stored. -/
inductive Storage where
  /-- A map, by the key and value fields of its entries. -/
  | map (entry : MapEntry)
  /-- One message or a list of messages of a type. -/
  | message (typeName : String) (repeated : Bool)
  /-- One scalar or a list of scalars, enums among them. -/
  | scalar (repeated packed : Bool)

/-- A field and how it is stored. -/
structure Slot where
  descriptor : FieldDescriptor
  storage : Storage
  /-- Whether the generated property may be absent. -/
  optional : Bool
  /-- The position of the oneof the field belongs to. -/
  oneof : Option Nat

namespace Slot

def name (slot : Slot) : String := slot.descriptor.name

def number (slot : Slot) : Int := slot.descriptor.number

/-- Whether the field is stored as a list. A map is not. -/
def isList (slot : Slot) : Bool :=
  match slot.storage with
  | .map _ => false
  | .message _ repeated => repeated
  | .scalar repeated _ => repeated

end Slot

namespace Scope

/-- How a field is stored: as a map when a map entry is known for its type, whatever its declared
type is. -/
def storage (scope : Scope) (f : FieldDescriptor) : Storage :=
  match scope.mapOf? f with
  | some entry => .map entry
  | none =>
    if f.isMessage then .message f.typeName f.isRepeated else .scalar f.isRepeated f.isPacked

/-- The slot of a field; groups have none. -/
def slot (scope : Scope) (f : FieldDescriptor) : Except Failure Slot :=
  if f.type = .group then .error (.groupField f.name)
  else .ok ⟨f, scope.storage f, scope.file.mayOmit f, f.oneof?⟩

/-- The slots of a message, in the order of its fields. -/
def slots (scope : Scope) (message : MessageDescriptor) : Except Failure (List Slot) :=
  message.fields.mapM scope.slot

end Scope

/-- The slots that belong to the oneof at a position. -/
def slotsOf (slots : List Slot) (index : Nat) : List Slot :=
  slots.filter (·.oneof = some index)

/-- The field numbers of each of `count` oneofs, in the order of the oneofs. -/
def oneofNumbers (count : Nat) (slots : List Slot) : List (List Int) :=
  (List.range count).map fun index => (slotsOf slots index).map Slot.number

end Protoscribe

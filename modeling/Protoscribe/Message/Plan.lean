import Protoscribe.Field.Slot
import Protoscribe.Field.Typing
import Protoscribe.Field.Routine

set_option autoImplicit false

/-! # The plan of a message

Everything about a message that can fail is settled before anything is generated for it: its
name, the slots of its fields, the types of their properties, and the routines that carry them on
the wire. The result is a plan, and every part of the class is a total function of the plan.

When several things are wrong, the order of the checks decides which one is reported: the name,
then groups among the fields, then the types in the order in which the class needs them
(`typingOrder`, then field by field), then the routines field by field.
-/

namespace Protoscribe

open TypeScript

/-- The key or the value of a map. -/
structure MapSide where
  descriptor : FieldDescriptor
  type : Ty
  /-- The name of the routines that write and read it. -/
  routine : String

/-- How the values of a property are stored, with the routines that carry them. -/
inductive Content where
  | map (key value : MapSide)
  | message (typeName : String) (repeated : Bool) (write : String)
  | scalar (repeated packed : Bool) (write read : String)

/-- A field as a property of the generated class. -/
structure Property where
  slot : Slot
  type : Ty
  content : Content

namespace Property

def name (p : Property) : String := p.slot.name

def number (p : Property) : Int := p.slot.number

def optional (p : Property) : Bool := p.slot.optional

/-- Whether the property is a map. -/
def isMap (p : Property) : Bool :=
  match p.content with
  | .map .. => true
  | _ => false

end Property

/-- What is generated for a message: the class name, the properties, and the oneof names. -/
structure Plan where
  name : String
  properties : List Property
  oneofs : List String

namespace Plan

/-- The properties that belong to the oneof at a position. -/
def group (plan : Plan) (index : Nat) : List Property :=
  plan.properties.filter (·.slot.oneof = some index)

/-- The properties that belong to no oneof. -/
def ungrouped (plan : Plan) : List Property :=
  plan.properties.filter (·.slot.oneof.isNone)

/-- The field numbers of each oneof. -/
def groupNumbers (plan : Plan) : List (List Int) :=
  oneofNumbers plan.oneofs.length (plan.properties.map Property.slot)

/-- The field numbers of the oneof that a property belongs to. -/
def numbersBeside? (plan : Plan) (p : Property) : Option (List Int) :=
  p.slot.oneof.bind (plan.groupNumbers[·]?)

end Plan

namespace Scope

/-- One side of a map. -/
def mapSide (scope : Scope) (f : FieldDescriptor) : Except Failure MapSide := do
  let type ← scope.valueType f
  let routine ← f.writeRoutine
  return ⟨f, type, routine⟩

/-- The content of a slot. -/
def content (scope : Scope) (slot : Slot) : Except Failure Content :=
  match slot.storage with
  | .map entry => do
    let key ← scope.mapSide entry.key
    let value ← scope.mapSide entry.value
    return .map key value
  | .message typeName repeated => do
    let write ← slot.descriptor.writeRoutine
    return .message typeName repeated write
  | .scalar repeated packed => do
    let write ← slot.descriptor.writeRoutine
    let read ← slot.descriptor.readRoutine
    return .scalar repeated packed write read

/-- The type of the property of a slot. -/
def slotType (scope : Scope) (slot : Slot) : Except Failure Ty :=
  scope.propertyType slot.descriptor

/-- The slots whose types the constructor's record needs, in the order in which it lists them. A
oneof lists, for each of its members, the members with the same number. -/
def typingOrder (oneofCount : Nat) (slots : List Slot) : List Slot :=
  slots.filter (·.oneof.isNone) ++ (List.range oneofCount).flatMap fun index =>
    (slotsOf slots index).flatMap fun chosen =>
      (slotsOf slots index).filter (·.number = chosen.number)

/-- The property of a slot. -/
def property (scope : Scope) (slot : Slot) : Except Failure Property := do
  let type ← scope.slotType slot
  let content ← scope.content slot
  return ⟨slot, type, content⟩

/-- The properties of a message, once all their types are known. -/
def properties (scope : Scope) (message : MessageDescriptor) :
    Except Failure (List Property) := do
  let slots ← scope.slots message
  -- all types come before the first routine, so that a fault in a type is reported first
  let _ ← (typingOrder message.oneofs.length slots ++ slots).mapM scope.slotType
  slots.mapM scope.property

/-- The plan of a message. -/
def plan (scope : Scope) (message : MessageDescriptor) : Except Failure Plan :=
  match message.name? with
  | none => .error .unnamedMessage
  | some name => do
    let properties ← scope.properties message
    return ⟨name, properties, message.oneofs⟩

end Scope

end Protoscribe

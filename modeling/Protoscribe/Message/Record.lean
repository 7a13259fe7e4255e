import Protoscribe.Message.Plan

set_option autoImplicit false

/-! # The records of a message

Two object types describe a message. The record that the constructor takes holds live values:
instances of other messages and maps. The plain record that `fromObject` takes and `toObject`
gives holds plain objects in their place, and a map there is an object with an index signature.

In the constructor's record at most one member of a oneof can be present: each alternative gives
one member its type and all others the type `never`.
-/

namespace Protoscribe

open TypeScript

namespace Plan

/-- The alternative of a oneof in which the members numbered like `chosen` may be present. -/
def alternative (members : List Property) (chosen : Property) : Ty :=
  .ofProperties (members.map fun member =>
    ⟨member.name, true, if member.number = chosen.number then member.type else .named "never"⟩)

/-- The alternatives of the oneof at a position; none when it has no members. -/
def alternatives? (plan : Plan) (index : Nat) : Option Ty :=
  match plan.group index with
  | [] => none
  | members => some (.union (members.map (alternative members)))

/-- The properties outside all oneofs, as an object type. -/
def ungroupedRecord (plan : Plan) : Ty :=
  .ofProperties (plan.ungrouped.map fun p => ⟨p.name, p.optional, p.type⟩)

/-- The type of the record that the constructor takes. -/
def liveRecord (plan : Plan) : Ty :=
  -- a declared oneof makes the type an intersection even when it has no members
  match plan.oneofs with
  | [] => plan.ungroupedRecord
  | _ :: _ =>
    .intersection
      (plan.ungroupedRecord :: (List.range plan.oneofs.length).filterMap plan.alternatives?)

end Plan

namespace Scope

/-- The type of the plain object of a message, `ReturnType<typeof T.prototype.toObject>`. -/
def plainMessage (scope : Scope) (typeName : String) : Ty :=
  .reference "ReturnType" [.query (scope.path typeName ++ ".prototype.toObject")]

/-- The type of a map's values in a plain object. -/
def plainMapValue (scope : Scope) (value : MapSide) : Ty :=
  match value.descriptor.typeName? with
  | some typeName => if value.descriptor.isMessage then scope.plainMessage typeName else value.type
  | none => value.type

/-- The type of a property in a plain object. -/
def plainProperty (scope : Scope) (p : Property) : Ty :=
  match p.content with
  | .map key value => .indexed "key" key.type (scope.plainMapValue value)
  | .message typeName repeated _ =>
    if repeated then .array (scope.plainMessage typeName) else scope.plainMessage typeName
  | .scalar .. => p.type

/-- The type of the plain object of a planned message. -/
def plainRecord (scope : Scope) (plan : Plan) : Ty :=
  .ofProperties (plan.properties.map fun p => ⟨p.name, p.optional, scope.plainProperty p⟩)

end Scope

end Protoscribe

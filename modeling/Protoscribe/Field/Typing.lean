import Protoscribe.Scope

set_option autoImplicit false

/-! # The types of fields

The type of one value of a field. For a map it is `Map<K, V>` with the types of the key and value
fields of its entries, which may be maps themselves; since every step leads to another known map
entry, one step more than there are map entries is enough for every field whose map type is
finite.
-/

namespace Protoscribe

open TypeScript

namespace Scope

/-- The type of a value of a field that is not a map. -/
def plainType (scope : Scope) (f : FieldDescriptor) : Except Failure Ty :=
  if f.jsString then .ok (.named "string")
  else match f.type with
    | .string => .ok (.named "string")
    | .bool => .ok (.named "boolean")
    | .bytes => .ok (.named "Uint8Array")
    | .message => .ok (scope.typeRef f.typeName)
    | .enum => .ok (scope.typeRef f.typeName)
    | .group => .error (.groupField f.name)
    | _ => .ok (.named "number")

/-- The type of a value of a field, following at most `steps` map entries one after the other. -/
def valueTypeWithin (scope : Scope) : Nat → FieldDescriptor → Except Failure Ty
  | 0, f => .error (.endlessMap f.name)
  | steps + 1, f =>
    match scope.mapOf? f with
    | none => scope.plainType f
    | some entry => do
      let key ← scope.valueTypeWithin steps entry.key
      let value ← scope.valueTypeWithin steps entry.value
      return .reference "Map" [key, value]

/-- The number of steps that reaches the end of every finite map type. -/
def mapSteps (scope : Scope) : Nat := scope.registry.mapEntries.size + 1

/-- The type of a value of a field. -/
def valueType (scope : Scope) (f : FieldDescriptor) : Except Failure Ty :=
  scope.valueTypeWithin scope.mapSteps f

/-- The type of the property that holds a field: an array for a field that repeats and is no
map. -/
def propertyType (scope : Scope) (f : FieldDescriptor) : Except Failure Ty := do
  let type ← scope.valueType f
  return if f.isRepeated && (scope.mapOf? f).isNone then .array type else type

end Scope

end Protoscribe

set_option autoImplicit false

/-! # Types of the emitted language

Generated modules are written in a part of TypeScript. Its types are dotted names with type
arguments, arrays, unions, intersections, object types, string types and the types of named
values. Names and paths are kept as written; a string type holds the text it stands for.
-/

namespace Protoscribe.TypeScript

/-- A property of an object type, `name: type` or `name?: type`. -/
structure PropertyType (τ : Type) where
  name : String
  optional : Bool
  type : τ

/-- An index signature of an object type, `[parameter: key]: value`. -/
structure IndexType (τ : Type) where
  parameter : String
  key : τ
  value : τ

/-- A type. -/
inductive Ty where
  /-- A dotted name with its type arguments, `Map<string, number>`. -/
  | reference (name : String) (arguments : List Ty)
  /-- An array, `T[]`. -/
  | array (element : Ty)
  /-- A union, `A | B`. -/
  | union (members : List Ty)
  /-- An intersection, `A & B`. -/
  | intersection (members : List Ty)
  /-- An object type with its properties and, at most, one index signature. -/
  | record (properties : List (PropertyType Ty)) (index : Option (IndexType Ty))
  /-- The type of one string, `"none"`. -/
  | literal (value : String)
  /-- The type of a value, `typeof a.b`. -/
  | query (path : String)

namespace Ty

/-- A name without type arguments. -/
def named (name : String) : Ty := .reference name []

/-- An object type without an index signature. -/
def ofProperties (properties : List (PropertyType Ty)) : Ty := .record properties none

/-- An object type that is one index signature. -/
def indexed (parameter : String) (key value : Ty) : Ty := .record [] (some ⟨parameter, key, value⟩)

end Ty

end Protoscribe.TypeScript

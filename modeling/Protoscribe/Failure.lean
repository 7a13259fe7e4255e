set_option autoImplicit false

/-! # Why code cannot be generated -/

namespace Protoscribe

/-- The reason why no code is generated. -/
inductive Failure where
  /-- A field is a group. -/
  | groupField (field : String)
  /-- A map entry lacks a field numbered 1 or 2. -/
  | incompleteMapEntry (typeName : String)
  /-- The types of a map's keys and values lead back to the map. -/
  | endlessMap (field : String)
  | unnamedMessage
  | unnamedService
  | missingInput (method : String)
  | missingOutput (method : String)
  /-- A requested file is not among the described ones. -/
  | unknownFile (name : String)
  deriving DecidableEq, Repr

namespace Failure

/-- The text shown for a failure. -/
def text : Failure → String
  | .groupField field => "unsupported type TYPE_GROUP on field `" ++ field ++ "`"
  | .incompleteMapEntry typeName =>
    "descriptor is missing key/value fields on map entry `" ++ typeName ++ "`"
  | .endlessMap field => "descriptor is missing an end of the map type of field `" ++ field ++ "`"
  | .unnamedMessage => "descriptor is missing name on message"
  | .unnamedService => "descriptor is missing name on service"
  | .missingInput method => "descriptor is missing input type on method `" ++ method ++ "`"
  | .missingOutput method => "descriptor is missing output type on method `" ++ method ++ "`"
  | .unknownFile name => "code generation error: file descriptor not found: " ++ name

end Failure

end Protoscribe

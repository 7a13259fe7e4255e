import Protoscribe.Message.Instance

set_option autoImplicit false

/-! # Reading and writing properties

Each property has a getter and a setter over the runtime's storage. A setter of a oneof member
hands over the numbers of the whole oneof, so that setting one member clears the others. Each
oneof has a getter that names the member which is set.
-/

namespace Protoscribe

open TypeScript

namespace Access

/-- The text of a number in a declared default, as an expression. -/
def numberText (text : String) : String :=
  if text = "inf" then "Infinity"
  else if text = "-inf" then "-Infinity"
  else if text = "nan" then "NaN"
  else text

/-- The declared default of a field as an expression. Bytes and messages have none. -/
def declaredDefault? (scope : Scope) (f : FieldDescriptor) : Option Expr :=
  if f.defaultValue = "" then none
  else match f.type with
    | .enum => some (.member (scope.valueRef f.typeName) f.defaultValue)
    | .string => some (.string f.defaultValue)
    | .bool => some (.bool (f.defaultValue = "true"))
    | .bytes => none
    | .message => none
    | .group => none
    | _ => some (.number (numberText f.defaultValue))

/-- The call that reads a property from storage. -/
def stored (scope : Scope) (p : Property) : Expr :=
  match p.content with
  | .message typeName repeated _ =>
    scope.runtimeCall (if repeated then "getRepeatedWrapperField" else "getWrapperField")
      [.thisRef, scope.valueRef typeName, .int p.number]
  | .map .. => .cast (scope.runtimeCall "getField" [.thisRef, .int p.number]) (.named "any")
  | .scalar .. =>
    match declaredDefault? scope p.slot.descriptor with
    | some value => scope.runtimeCall "getFieldWithDefault" [.thisRef, .int p.number, value]
    | none => scope.runtimeCall "getField" [.thisRef, .int p.number]

/-- The getter of a property. -/
def getter (scope : Scope) (p : Property) : Member :=
  .getter p.name [.give (.cast (stored scope p) p.type)]

/-- The value given to a setter. -/
def value : Expr := .ident "value"

/-- The call that writes a property to storage. -/
def store (scope : Scope) (plan : Plan) (p : Property) : Expr :=
  match plan.numbersBeside? p with
  | some numbers =>
    -- with the numbers of its oneof the runtime clears the other members
    let routine := match p.content with
      | .message .. => "setOneofWrapperField"
      | _ => "setOneofField"
    scope.runtimeCall routine [.thisRef, .int p.number, .ints numbers, value]
  | none =>
    match p.content with
    | .map .. =>
      scope.runtimeCall "setField" [.thisRef, .int p.number, .cast value (.named "any")]
    | .message _ repeated _ =>
      scope.runtimeCall (if repeated then "setRepeatedWrapperField" else "setWrapperField")
        [.thisRef, .int p.number, value]
    | .scalar .. => scope.runtimeCall "setField" [.thisRef, .int p.number, value]

/-- The setter of a property. -/
def setter (scope : Scope) (plan : Plan) (p : Property) : Member :=
  .setter p.name (.typed "value" p.type) [.expr (store scope plan p)]

/-- The table from field numbers to member names, with `none` at zero. -/
def caseTable (members : List Property) : Expr :=
  .object ((.number 0, .string "none")
    :: members.map fun member => (.number member.number, .string member.name)) true

/-- The type of the table of a oneof. -/
def caseTableType (members : List Property) : Ty :=
  .indexed "index" (.named "number")
    (.union (.literal "none" :: members.map fun member => .literal member.name))

/-- The getter that names the member of a oneof which is set. -/
def caseGetter (scope : Scope) (plan : Plan) (index : Nat) (name : String) : Member :=
  let members := plan.group index
  .getter name
    [.const (.name "cases") (some (caseTableType members)) (caseTable members),
      .give (.index (.ident "cases") (scope.runtimeCall "computeOneofCase"
        [.thisRef, .ints (members.map Property.number)]))]

/-- The getter and the setter of each property, in order. -/
def accessors (scope : Scope) (plan : Plan) : List Member :=
  plan.properties.flatMap fun p => [getter scope p, setter scope plan p]

/-- The getter of each oneof, in order. -/
def caseGetters (scope : Scope) (plan : Plan) : List Member :=
  plan.oneofs.mapIdx (caseGetter scope plan)

end Access

end Protoscribe

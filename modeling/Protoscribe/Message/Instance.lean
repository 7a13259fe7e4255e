import Protoscribe.Message.Record
import Protoscribe.TypeScript.Decl.Basic

set_option autoImplicit false

/-! # Making an instance

The constructor takes either the positional array of the runtime or a record. It sets up the
storage, telling the runtime which fields are lists and which fields form oneofs, and then copies
the fields of the record. A map that the record left out becomes an empty map.
-/

namespace Protoscribe

open TypeScript

/-- The message class of the runtime. -/
def Scope.runtimeMessage (scope : Scope) : Expr := .member (.ident scope.runtime) "Message"

/-- A call of a function of the runtime's message class. -/
def Scope.runtimeCall (scope : Scope) (name : String) (arguments : List Expr) : Expr :=
  scope.runtimeMessage.method name arguments

namespace Property

/-- The property on the instance itself. -/
def onThis (p : Property) : Expr := .member .thisRef p.name

/-- The property on the value of a variable. -/
def on (p : Property) (holder : String) : Expr := .member (.ident holder) p.name

end Property

namespace Instance

/-- The parameter of the constructor. -/
def data : Expr := .ident "data"

/-- The test whether the argument is a positional array. -/
def isPositional : Expr := Expr.method (.ident "Array") "isArray" [data]

/-- The numbers of the fields that are lists. -/
def listNumbers (plan : Plan) : List Int :=
  (plan.properties.filter (·.slot.isList)).map Property.number

/-- The call that sets up the storage. -/
def setUp (scope : Scope) (plan : Plan) : Expr :=
  scope.runtimeCall "initialize"
    [.thisRef, .conditional isPositional data (.array []), .int 0, .int (-1),
      .ints (listNumbers plan), .array (plan.groupNumbers.map Expr.ints)]

/-- The test whether the record holds a property. -/
def isGiven (p : Property) : Expr :=
  .and (.binary (.string p.name) "in" data) (.binary (p.on "data") "!==" .undefined)

/-- The statement that copies a property from the record. -/
def copy (p : Property) : Stmt :=
  let assignment : Stmt := .expr (.assign p.onThis (p.on "data"))
  if p.optional then .guarded (isGiven p) [assignment] else assignment

/-- The statement that makes a map where the record had none. -/
def ensureMap (p : Property) : Stmt :=
  .guarded (.not p.onThis) [.expr (.assign p.onThis (.construct (.ident "Map") []))]

/-- The test whether the argument is a record. -/
def isRecord : Expr :=
  .and (.not isPositional) (.binary (.typeOf data) "==" (.string "object"))

/-- The constructor of the class. -/
def constructor (scope : Scope) (plan : Plan) : Member :=
  .constructor
    [.optionalTyped "data" (.union [.array (.named "any"), plan.liveRecord])]
    ([.expr (.call .superRef []), .expr (setUp scope plan),
        .guarded isRecord (plan.properties.map copy)]
      ++ (plan.properties.filter (·.isMap)).map ensureMap)

end Instance

end Protoscribe

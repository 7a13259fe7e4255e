import Protoscribe.Message.Instance

set_option autoImplicit false

/-! # Plain objects

`fromObject` makes an instance from a plain object, and `toObject` makes a plain object from an
instance. Properties that are always present go into one record; the others are assigned one by
one when they are there. The keys of a plain object are strings, so the keys of a map are turned
back into numbers or truth values on the way in.
-/

namespace Protoscribe

open TypeScript

namespace Plain

/-! ## From plain objects -/

/-- The key of a map entry, from the text that a plain object has for it. -/
def liveKey (key : FieldDescriptor) : Expr :=
  if key.type.isNumeric then .call (.ident "Number") [.ident "key"]
  else if key.type = .bool then .binary (.ident "key") "===" (.string "true")
  else .ident "key"

/-- The instance made from a plain object of a message type. -/
def fromPlain (scope : Scope) (typeName : String) (plain : Expr) : Expr :=
  (scope.valueRef typeName).method "fromObject" [plain]

/-- The value of a map entry, from the value that a plain object has for it. -/
def liveMapValue (scope : Scope) (value : FieldDescriptor) : Expr :=
  if value.isMessage then fromPlain scope value.typeName (.ident "value") else .ident "value"

/-- The entries of a map, from the plain object `source`. -/
def liveEntries (scope : Scope) (key value : FieldDescriptor) (source : Expr) : Expr :=
  let entries := Expr.method (.ident "Object") "entries" [source]
  if !value.isMessage && key.type = .string then entries
  else entries.method "map"
    [.lambda [.pair "key" "value"] (.array [liveKey key, liveMapValue scope value])]

/-- The value that a property takes from the plain object `data`. -/
def liveValue (scope : Scope) (p : Property) : Expr :=
  let source := p.on "data"
  match p.content with
  | .map key value =>
    .construct (.ident "Map") [liveEntries scope key.descriptor value.descriptor source]
  | .message typeName true _ =>
    source.method "map" [.lambda [.bare "item"] (fromPlain scope typeName (.ident "item"))]
  | .message typeName false _ => fromPlain scope typeName source
  | .scalar .. => source

/-- The test whether the plain object holds an optional property. -/
def isGiven (p : Property) : Expr :=
  if p.isMap then .binary (.typeOf (p.on "data")) "==" (.string "object")
  else .binary (p.on "data") "!=" .null

/-! ## To plain objects -/

/-- The plain object of a message. -/
def toPlain (message : Expr) : Expr := message.method "toObject" []

/-- The entries of a map, with messages as plain objects. -/
def plainEntries (value : FieldDescriptor) (source : Expr) : Expr :=
  if value.isMessage then
    Expr.method (Expr.method (.ident "Array") "from" [source]) "map"
      [.lambda [.pair "key" "value"] (.array [.ident "key", toPlain (.ident "value")])]
  else source

/-- The value that a property has in the plain object. -/
def plainValue (scope : Scope) (p : Property) : Expr :=
  let source := p.onThis
  match p.content with
  | .map _ value =>
    Expr.method (.ident "Object") "fromEntries" [plainEntries value.descriptor source]
  | .message typeName true _ =>
    source.method "map"
      [.lambda [.typed "item" (scope.typeRef typeName)] (toPlain (.ident "item"))]
  | .message _ false _ => toPlain source
  | .scalar .. => source

/-- The test whether the instance holds an optional property; an empty map counts as absent. -/
def isPresent (p : Property) : Expr :=
  if p.isMap then .binary (.member p.onThis "size") ">" (.int 0)
  else .binary p.onThis "!=" .null

/-! ## The two methods -/

/-- The record of the properties that are always present. -/
def requiredRecord (plan : Plan) (value : Property → Expr) : Expr :=
  .object ((plan.properties.filter (!·.optional)).map fun p => (.name p.name, value p)) true

/-- The assignments of the other properties to the variable `target`. -/
def optionalAssignments (plan : Plan) (target : String) (test value : Property → Expr) :
    List Stmt :=
  (plan.properties.filter (·.optional)).map fun p =>
    .guarded (test p) [.expr (.assign (p.on target) (value p))]

/-- The method that makes an instance from a plain object. -/
def fromObject (scope : Scope) (plan : Plan) : Member :=
  .method "fromObject" true false [.typed "data" (scope.plainRecord plan)] none
    (some ([.constant "message"
          (.construct (.ident plan.name) [requiredRecord plan (liveValue scope)])]
      ++ optionalAssignments plan "message" isGiven (liveValue scope)
      ++ [.give (.ident "message")]))

/-- The method that makes a plain object from an instance. -/
def toObject (scope : Scope) (plan : Plan) : Member :=
  .method "toObject" false false [] none
    (some ([.const (.name "data") (some (scope.plainRecord plan))
          (requiredRecord plan (plainValue scope))]
      ++ optionalAssignments plan "data" isPresent (plainValue scope)
      ++ [.give (.ident "data")]))

end Plain

end Protoscribe

import Protoscribe.Service.Call

set_option autoImplicit false

/-! # Routes

The call runtime finds a method by its path and converts messages with the functions given for
it. All methods of a service stand in one object, by name.
-/

namespace Protoscribe

open TypeScript

namespace Routes

/-- The path of a method, `/package.Service/Method`. -/
def path (package service method : String) : String :=
  "/" ++ (if package = "" then service else package ++ "." ++ service) ++ "/" ++ method

/-- The function that encodes a message of a type. -/
def encoder (scope : Scope) (typeName : String) : Expr :=
  .lambda [.typed "message" (scope.typeRef typeName)]
    (Expr.method (.ident "Buffer") "from" [Expr.method (.ident "message") "serialize" []])

/-- The function that decodes a message of a type. -/
def decoder (scope : Scope) (typeName : String) : Expr :=
  .lambda [.typed "bytes" (.named "Buffer")]
    ((scope.valueRef typeName).method "deserialize"
      [.construct (.ident "Uint8Array") [.ident "bytes"]])

/-- What the call runtime has to know about one call. -/
def route (scope : Scope) (service : String) (call : Call) : Expr :=
  .object
    [(.name "path", .string (path scope.file.package service call.name)),
      (.name "requestStream", .bool call.kind.streamsRequest),
      (.name "responseStream", .bool call.kind.streamsResponse),
      (.name "requestSerialize", encoder scope call.request),
      (.name "requestDeserialize", decoder scope call.request),
      (.name "responseSerialize", encoder scope call.response),
      (.name "responseDeserialize", decoder scope call.response)] true

/-- The routes of a service. -/
def table (scope : Scope) (plan : ServicePlan) : Expr :=
  .object (plan.calls.map fun call => (.name call.name, route scope plan.name call)) true

end Routes

end Protoscribe

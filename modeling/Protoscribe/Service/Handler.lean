import Protoscribe.Service.Routes

set_option autoImplicit false

/-! # Handlers

The server side of a service is an abstract class: the routes as a static property, and one
abstract method for each call. A call that is answered by one message is answered through a
callback.
-/

namespace Protoscribe

open TypeScript

namespace Handler

/-- The name of the class. -/
def className (service : String) : String := "Unimplemented" ++ service ++ "Service"

/-- The parameters of the method that handles a call. -/
def params (scope : Scope) (call : Call) : List Param :=
  .typed "call" (scope.callType call.kind.serverCall
      [scope.requestType call, scope.responseType call])
    :: if call.kind.streamsResponse then []
      else [.typed "callback" (scope.callType "sendUnaryData" [scope.responseType call])]

/-- The method that handles a call. -/
def method (scope : Scope) (call : Call) : Member :=
  .method call.name false true (params scope call) (some (.named "void")) none

/-- The class of a service. -/
def decl (scope : Scope) (plan : ServicePlan) : Decl :=
  .classDecl ⟨className plan.name, true, none,
    [.property "definition" true none (some (Routes.table scope plan)),
      .index ⟨"method", .named "string", scope.callType "UntypedHandleCall" []⟩]
      ++ plan.calls.map (method scope)⟩

end Handler

end Protoscribe

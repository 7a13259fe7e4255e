import Protoscribe.Service.Handler
import Protoscribe.Settings

set_option autoImplicit false

/-! # Stubs

The client side of a service is a class over the generic client of the call runtime, made from
the routes. Each call is a property that holds a function with one parameter for every position
of its overloads, and hands its arguments on. In promise style a call with a single request and a
single response fills in missing metadata and options and settles a promise from the callback.
-/

namespace Protoscribe

open TypeScript

namespace Stub

/-- The name of the class. -/
def className (service : String) : String := service ++ "Client"

/-- The generic client that the class extends. -/
def base (scope : Scope) (service : String) : Expr :=
  Expr.method (.ident scope.callRuntime) "makeGenericClientConstructor"
    [.member (.ident (Handler.className service)) "definition", .string service,
      .emptyObject]

/-- The constructor of the class. -/
def constructor (scope : Scope) : Member :=
  .constructor
    [.typed "address" (.named "string"),
      .typed "credentials" (scope.callType "ChannelCredentials" []),
      .optionalTyped "options" (.reference "Partial" [scope.callType "ChannelOptions" []])]
    [.expr (.call .superRef [.ident "address", .ident "credentials", .ident "options"])]

/-- The type of metadata. -/
def metadata (scope : Scope) : Ty := scope.callType "Metadata" []

/-- The type of call options. -/
def options (scope : Scope) : Ty := scope.callType "CallOptions" []

/-- The type of the callback of a call. -/
def callback (scope : Scope) (call : Call) : Ty :=
  scope.callType "requestCallback" [scope.responseType call]

/-- The call of the generic client's method of the same name. -/
def forward (call : Call) (arguments : List Expr) : Expr :=
  .call (.member .superRef call.name) arguments

/-- The parameters after the message of a call that takes a callback. Any of them but the callback
may be left out, so each may hold what comes after it. -/
def callbackParams (scope : Scope) (call : Call) : List Param :=
  [.typed "metadata" (.union [metadata scope, options scope, callback scope call]),
    .optionalTyped "options" (.union [options scope, callback scope call]),
    .optionalTyped "callback" (callback scope call)]

/-- The parameters after the message of a call without a callback. -/
def plainParams (scope : Scope) : List Param :=
  [.optionalTyped "metadata" (.union [metadata scope, options scope]),
    .optionalTyped "options" (options scope)]

/-- The parameter for a single request. -/
def message (scope : Scope) (call : Call) : Param := .typed "message" (scope.requestType call)

/-- The statement that gives a variable a value when it has none. -/
def fillIn (name : String) (value : Expr) : Stmt :=
  .guarded (.not (.ident name)) [.expr (.assign (.ident name) value)]

/-- The callback that settles a promise. -/
def settle (scope : Scope) (call : Call) : Expr :=
  .arrowBlock
    [.typed "error" (scope.callType "ServiceError" []),
      .typed "response" (scope.responseType call)] none
    [.branch (.ident "error") [.expr (.call (.ident "reject") [.ident "error"])]
      (some [.expr (.call (.ident "resolve") [.ident "response"])])]

/-- The statements of a call that gives a promise. -/
def promiseBody (scope : Scope) (call : Call) : List Stmt :=
  [fillIn "metadata" (.construct (.member (.ident scope.callRuntime) "Metadata") []),
    fillIn "options" .emptyObject,
    .give (.construct (.ident "Promise") [.lambda [.bare "resolve", .bare "reject"]
      (forward call [.ident "message", .ident "metadata", .ident "options",
        settle scope call])])]

/-- A client call as a function: the interface it satisfies, its parameters, its result and its
statements. -/
structure CallFunction where
  overloads : String
  params : List Param
  result : Ty
  body : List Stmt

/-- The statement that hands variables on to the generic client. -/
def handOn (call : Call) (names : List String) : List Stmt :=
  [.give (forward call (names.map Expr.ident))]

/-- The function of a call. -/
def function (scope : Scope) (settings : Settings) (call : Call) : CallFunction :=
  match call.kind with
  | .unary =>
    if settings.givesPromises then
      { overloads := "GrpcPromiseServiceInterface"
        params := message scope call :: plainParams scope
        result := .reference "Promise" [scope.responseType call]
        body := promiseBody scope call }
    else
      { overloads := "GrpcUnaryServiceInterface"
        params := message scope call :: callbackParams scope call
        result := scope.callType "ClientUnaryCall" []
        body := handOn call ["message", "metadata", "options", "callback"] }
  | .requestStream =>
    { overloads := "GrpcWritableServiceInterface"
      params := callbackParams scope call
      result := scope.callType "ClientWritableStream" [scope.requestType call]
      body := handOn call ["metadata", "options", "callback"] }
  | .responseStream =>
    { overloads := "GrpcStreamServiceInterface"
      params := message scope call :: plainParams scope
      result := scope.callType "ClientReadableStream" [scope.responseType call]
      body := handOn call ["message", "metadata", "options"] }
  | .duplex =>
    { overloads := "GrpcChunkServiceInterface"
      params := plainParams scope
      result := scope.callType "ClientDuplexStream"
        [scope.requestType call, scope.responseType call]
      body := handOn call ["metadata", "options"] }

/-- The property that holds a call. -/
def property (scope : Scope) (settings : Settings) (call : Call) : Member :=
  let f := function scope settings call
  .property call.name false
    (some (.reference f.overloads [scope.requestType call, scope.responseType call]))
    (some (.arrowBlock f.params (some f.result) f.body))

/-- The class of a service. -/
def decl (scope : Scope) (settings : Settings) (plan : ServicePlan) : Decl :=
  .classDecl ⟨className plan.name, false, some (base scope plan.name),
    constructor scope :: plan.calls.map (property scope settings)⟩

end Stub

/-- The declarations of a service: its handler and its stub. -/
def Scope.serviceDecls (scope : Scope) (settings : Settings) (service : ServiceDescriptor) :
    Except Failure (List Decl) := do
  let plan ← service.plan
  return [Handler.decl scope plan, Stub.decl scope settings plan]

end Protoscribe

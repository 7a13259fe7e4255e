import Protoscribe.Scope
import Protoscribe.TypeScript.Decl.Basic

set_option autoImplicit false

/-! # Calls

A method of a service is a call with a request type and a response type; on either side it sends
one message or a stream of them. A service is planned like a message is: what is missing is found
before anything is generated.
-/

namespace Protoscribe

open TypeScript

/-- Which sides of a call are streams. -/
inductive CallKind where
  | unary
  | requestStream
  | responseStream
  | duplex
  deriving DecidableEq, Repr

namespace CallKind

/-- The kind of a call from its two streaming marks. -/
def of (client server : Bool) : CallKind :=
  match client, server with
  | false, false => .unary
  | true, false => .requestStream
  | false, true => .responseStream
  | true, true => .duplex

/-- Whether the client sends a stream. -/
def streamsRequest : CallKind → Bool
  | .unary => false
  | .requestStream => true
  | .responseStream => false
  | .duplex => true

/-- Whether the server sends a stream. -/
def streamsResponse : CallKind → Bool
  | .unary => false
  | .requestStream => false
  | .responseStream => true
  | .duplex => true

/-- The type of the call object that a server gets. -/
def serverCall : CallKind → String
  | .unary => "ServerUnaryCall"
  | .requestStream => "ServerReadableStream"
  | .responseStream => "ServerWritableStream"
  | .duplex => "ServerDuplexStream"

end CallKind

/-- The kind of a method. -/
def MethodDescriptor.kind (m : MethodDescriptor) : CallKind :=
  .of m.clientStreaming m.serverStreaming

/-- A method whose request and response types are known. -/
structure Call where
  name : String
  kind : CallKind
  /-- The qualified name of the request type. -/
  request : String
  /-- The qualified name of the response type. -/
  response : String

/-- A method as a call; a missing request type is reported before a missing response type. -/
def MethodDescriptor.call (m : MethodDescriptor) : Except Failure Call :=
  match m.inputType?, m.outputType? with
  | none, _ => .error (.missingInput m.name)
  | some _, none => .error (.missingOutput m.name)
  | some request, some response => .ok ⟨m.name, m.kind, request, response⟩

/-- A service whose calls are known. -/
structure ServicePlan where
  name : String
  calls : List Call

/-- The plan of a service. -/
def ServiceDescriptor.plan (s : ServiceDescriptor) : Except Failure ServicePlan :=
  match s.name? with
  | none => .error .unnamedService
  | some name => do
    let calls ← s.methods.mapM MethodDescriptor.call
    return ⟨name, calls⟩

namespace Scope

/-- A type of the call runtime. -/
def callType (scope : Scope) (name : String) (arguments : List Ty) : Ty :=
  .reference (scope.callRuntime ++ "." ++ name) arguments

/-- The request type of a call. -/
def requestType (scope : Scope) (call : Call) : Ty := scope.typeRef call.request

/-- The response type of a call. -/
def responseType (scope : Scope) (call : Call) : Ty := scope.typeRef call.response

end Scope

end Protoscribe

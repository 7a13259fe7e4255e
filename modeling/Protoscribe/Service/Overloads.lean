import Protoscribe.Service.Call

set_option autoImplicit false

/-! # The overloads of client calls

For each kind of call an interface lists the ways of calling it, over a request type `P` and a
response type `R`. They are the same for every service, so a module with services declares them
once.
-/

namespace Protoscribe

open TypeScript

namespace Overloads

def request : Ty := .named "P"

def response : Ty := .named "R"

def message : Param := .typed "message" request

def metadata (scope : Scope) : Param := .typed "metadata" (scope.callType "Metadata" [])

def options (scope : Scope) : Param := .typed "options" (scope.callType "CallOptions" [])

def maybeOptions (scope : Scope) : Param :=
  .optionalTyped "options" (scope.callType "CallOptions" [])

def callback (scope : Scope) : Param :=
  .typed "callback" (scope.callType "requestCallback" [response])

/-- An interface whose signatures share their result. -/
def overloads (name : String) (result : Ty) (params : List (List Param)) : Decl :=
  .callable ⟨name, ["P", "R"], params.map fun ps => ⟨ps, result⟩⟩

/-- Ways to call with a callback: the metadata and the options may be left out. -/
def withCallback (scope : Scope) (first : List Param) : List (List Param) :=
  [first ++ [metadata scope, options scope, callback scope],
    first ++ [metadata scope, callback scope],
    first ++ [options scope, callback scope],
    first ++ [callback scope]]

/-- Ways to call without a callback: the metadata may be left out, and so may the options. -/
def withoutCallback (scope : Scope) (first : List Param) : List (List Param) :=
  [first ++ [metadata scope, maybeOptions scope], first ++ [maybeOptions scope]]

/-- The interfaces, one for each kind of call and one for calls that give a promise. -/
def all (scope : Scope) : List Decl :=
  [overloads "GrpcUnaryServiceInterface" (scope.callType "ClientUnaryCall" [])
      (withCallback scope [message]),
    overloads "GrpcStreamServiceInterface" (scope.callType "ClientReadableStream" [response])
      (withoutCallback scope [message]),
    overloads "GrpcWritableServiceInterface" (scope.callType "ClientWritableStream" [request])
      (withCallback scope []),
    overloads "GrpcChunkServiceInterface" (scope.callType "ClientDuplexStream" [request, response])
      (withoutCallback scope []),
    overloads "GrpcPromiseServiceInterface" (.reference "Promise" [response])
      (withoutCallback scope [message])]

end Overloads

end Protoscribe

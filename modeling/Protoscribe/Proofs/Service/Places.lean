import Protoscribe.Proofs.Checked
import Protoscribe.Service.Stub

set_option autoImplicit false

/-! # What stands where in the classes of a service

A service becomes two classes: the handlers with the routes, and the stub with the calls. Here the
routes, the handlers and the calls are read off these classes as they are emitted
(`ServicePlaces.of?`); what a generated service has in them is `places_service`, one entry of each
kind for each method.
-/

namespace Protoscribe

open TypeScript Checked

/-! ## The places -/

/-- A method that a server has to implement. -/
structure ServerMethod where
  name : String
  params : List Param

/-- A call that a client can make: the interface that it satisfies with its type arguments, and the
function. -/
structure ClientCall where
  name : String
  overloads : String
  types : List Ty
  params : List Param
  result : Ty
  body : List Stmt

/-- The places of the classes of a service that treat its methods, each in the order it is
emitted. -/
structure ServicePlaces where
  routes : List (PropertyKey × Expr)
  handlers : List ServerMethod
  calls : List ClientCall

/-- The routes, in the static property that holds them. -/
def routes? : Member → Option (List (PropertyKey × Expr))
  | .property "definition" true none (some (.object routes _)) => some routes
  | _ => none

/-- The abstract methods. -/
def serverMethod? : Member → Option ServerMethod
  | .method name false true params _ none => some ⟨name, params⟩
  | _ => none

/-- The properties that hold functions. -/
def clientCall? : Member → Option ClientCall
  | .property name false (some (.reference overloads types))
      (some (.arrowBlock params (some result) body)) =>
    some ⟨name, overloads, types, params, result, body⟩
  | _ => none

/-- The places of the classes of a service. -/
def ServicePlaces.of? : List Decl → Option ServicePlaces
  | [.classDecl server, .classDecl client] => do
    let routes ← server.members.findSome? routes?
    return ⟨routes, server.members.filterMap serverMethod?, client.members.filterMap clientCall?⟩
  | _ => none

/-! ## The places of a planned service -/

section Planned

variable (scope : Scope) (settings : Settings)

/-- The place of a call in the client. -/
def Stub.place (call : Call) : ClientCall :=
  let f := Stub.function scope settings call
  ⟨call.name, f.overloads, [scope.requestType call, scope.responseType call], f.params, f.result,
    f.body⟩

/-- What a planned service has in its places. -/
def ServicePlan.places (plan : ServicePlan) : ServicePlaces where
  routes := plan.calls.map fun call => (.name call.name, Routes.route scope plan.name call)
  handlers := plan.calls.map fun call => ⟨call.name, Handler.params scope call⟩
  calls := plan.calls.map (Stub.place scope settings)

theorem places_plan (plan : ServicePlan) :
    ServicePlaces.of? [Handler.decl scope plan, Stub.decl scope settings plan] =
      some (plan.places scope settings) := by
  have hHandlers : (plan.calls.map (Handler.method scope)).filterMap serverMethod? =
      plan.calls.map fun call => ⟨call.name, Handler.params scope call⟩ := by
    rw [List.filterMap_map, ← List.filterMap_eq_map]
    rfl
  have hCalls : (plan.calls.map (Stub.property scope settings)).filterMap clientCall? =
      plan.calls.map (Stub.place scope settings) := by
    rw [List.filterMap_map, ← List.filterMap_eq_map]
    rfl
  rw [ServicePlan.places, ← hHandlers, ← hCalls]
  rfl

end Planned

/-- The name of a type of the call runtime has a dot, so it is none of the simple names. -/
theorem callTypeName_ne (scope : Scope) (name : String) {word : String} (h : '.' ∉ word.toList) :
    scope.callRuntime ++ "." ++ name ≠ word := by
  rintro rfl
  simp at h

/-! ## The plan of a service -/

variable {scope : Scope} {settings : Settings} {service : ServiceDescriptor}

theorem MethodDescriptor.call_eq_ok {m : MethodDescriptor} {call : Call} (h : m.call = .ok call) :
    call.name = m.name ∧ call.kind = m.kind ∧ m.inputType? = some call.request ∧
      m.outputType? = some call.response := by
  rw [MethodDescriptor.call] at h
  split at h
  · cases h
  · cases h
  · rename_i request response hInput hOutput
    obtain rfl := Except.ok.inj h
    exact ⟨rfl, rfl, hInput, hOutput⟩

theorem ServiceDescriptor.name_of_plan {plan : ServicePlan} (h : service.plan = .ok plan) :
    plan.name = service.name := by
  rw [ServiceDescriptor.plan] at h
  split at h
  · cases h
  · rename_i name hName
    obtain ⟨calls, -, h⟩ := bind_eq_ok.1 h
    obtain rfl := pure_eq_ok.1 h
    rw [ServiceDescriptor.name, hName, Option.getD_some]

/-- A planned service has a call for each method, in their order. -/
theorem ServiceDescriptor.calls_of_plan {plan : ServicePlan} (h : service.plan = .ok plan) :
    List.Forall₂ (fun m call => MethodDescriptor.call m = .ok call) service.methods plan.calls := by
  rw [ServiceDescriptor.plan] at h
  split at h
  · cases h
  · obtain ⟨calls, hCalls, h⟩ := bind_eq_ok.1 h
    obtain rfl := pure_eq_ok.1 h
    exact mapM_eq_ok.1 hCalls

/-- The calls have the names of the methods. -/
theorem ServiceDescriptor.callNames_of_plan {plan : ServicePlan} (h : service.plan = .ok plan) :
    plan.calls.map Call.name = service.methods.map MethodDescriptor.name := by
  rw [← List.forall₂_eq_eq_eq, List.forall₂_map_left_iff, List.forall₂_map_right_iff]
  exact (service.calls_of_plan h).flip.imp fun call method h => (MethodDescriptor.call_eq_ok h).1

/-- The call of the method at a position. -/
theorem ServiceDescriptor.call_of_plan {plan : ServicePlan} (h : service.plan = .ok plan) {i : Nat}
    {m : MethodDescriptor} (hMethod : service.methods[i]? = some m) :
    ∃ call, plan.calls[i]? = some call ∧ m.call = .ok call := by
  have hCalls := service.calls_of_plan h
  obtain ⟨hi, rfl⟩ := List.getElem?_eq_some_iff.1 hMethod
  have hLt : i < plan.calls.length := hCalls.length_eq ▸ hi
  exact ⟨plan.calls[i], List.getElem?_eq_getElem hLt, hCalls.get hi hLt⟩

/-- **The places of a generated service.** -/
theorem places_service {decls : List Decl}
    (h : scope.serviceDecls settings service = .ok decls) :
    ∃ plan, service.plan = .ok plan ∧
      ServicePlaces.of? decls = some (plan.places scope settings) := by
  obtain ⟨plan, hPlan, h⟩ := bind_eq_ok.1 h
  obtain rfl := pure_eq_ok.1 h
  exact ⟨plan, hPlan, places_plan scope settings plan⟩

/-- A service with a method of each kind. -/
def relay : ServiceDescriptor :=
  ⟨some "Relay",
    [⟨"Send", some ".Note", some ".Ack", false, false⟩,
      ⟨"Upload", some ".Note", some ".Ack", true, false⟩,
      ⟨"Watch", some ".Note", some ".Ack", false, true⟩,
      ⟨"Talk", some ".Note", some ".Ack", true, true⟩]⟩

/-- The settings in which clients give promises. -/
def promiseSettings : Settings := { Settings.standard with unaryPromise := true }

end Protoscribe

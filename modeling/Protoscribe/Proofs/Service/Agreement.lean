import Protoscribe.Proofs.Evaluation.Expr
import Protoscribe.Proofs.Service.Places

set_option autoImplicit false

/-! # Routes, handlers and calls agree

For each method of a service there is a route, a handler and a call of the client, and each of the
three is made from the method on its own. Main statement: `service_agrees`, the three stand in the
same order under the same names, tell the same sides of a call to be streams and name the same
request and response types in the same positions (`Scope.Describes`), and a client hands on its own
parameters.
-/

namespace Protoscribe

open TypeScript Evaluation

/-! ## What the places say -/

namespace TypeScript

/-- The name of a parameter that is not taken apart. -/
def Param.name? : Param → Option String
  | ⟨.name name, _, _⟩ => some name
  | _ => none

/-- What an object literal has under a key. -/
def Expr.entry? (key : String) : Expr → Option Expr
  | .object properties _ => (properties.find? (propertyName ·.1 = key)).map Prod.snd
  | _ => none

/-- The type of what a function of one parameter takes. -/
def Expr.takes? : Expr → Option Ty
  | .arrow [⟨_, _, some type⟩] _ _ => some type
  | _ => none

/-- The class by which a function decodes. -/
def Expr.decodesBy? : Expr → Option Expr
  | .arrow _ _ (.call (.member target "deserialize") _) => some target
  | _ => none

/-- A callback that rejects with the error when there is one, and else resolves with the
response. -/
inductive Expr.Settling (resolve reject : String) : Expr → Prop
  | intro {error response : String} {errorType responseType : Ty}
      (distinct : [resolve, reject, error, response].Nodup) :
      Expr.Settling resolve reject
        (.arrowBlock [.typed error errorType, .typed response responseType] none
          [.branch (.ident error) [.expr (.call (.ident reject) [.ident error])]
            (some [.expr (.call (.ident resolve) [.ident response])])])

/-- The statement that gives a variable a value when it has none. -/
def Stmt.default (name : String) (value : Expr) : Stmt :=
  .guarded (.not (.ident name)) [.expr (.assign (.ident name) value)]

/-- The statements that hand variables on to the method of the base class with the given name, and
do nothing else: either as they are or, in promise style, with a callback that settles the promise,
after some of the variables were given their defaults. -/
inductive Stmt.HandsOn (name : String) (names : List String) :
    Option (List (String × Expr)) → List Stmt → Prop
  | direct : Stmt.HandsOn name names none
      [.give (.call (.member .superRef name) (names.map .ident))]
  | promised {resolve reject : String} {callback : Expr} {defaults : List (String × Expr)}
      (own : ∀ entry ∈ defaults, entry.1 ∈ names) (settles : callback.Settling resolve reject)
      (apart : resolve ∉ names ∧ reject ∉ names) :
      Stmt.HandsOn name names (some defaults)
        (defaults.map (fun entry => .default entry.1 entry.2) ++
          [.give (.construct (.ident "Promise") [.lambda [.bare resolve, .bare reject]
            (.call (.member .superRef name) (names.map .ident ++ [callback]))])])

end TypeScript

/-- The type of the call that a handler gets: its name and its arguments. -/
def ServerMethod.call? (handler : ServerMethod) : Option (String × List Ty) :=
  match handler.params with
  | ⟨_, _, some (.reference name types)⟩ :: _ => some (name, types)
  | _ => none

/-- The name of the type that a call gives. -/
def ClientCall.resultName? (call : ClientCall) : Option String :=
  match call.result with
  | .reference name _ => some name
  | _ => none

/-- The name of one of the given types of the call runtime. -/
def Scope.IsCallType (scope : Scope) (name? : Option String) (names : List String) : Prop :=
  ∃ name ∈ names, name? = some (scope.callRuntime ++ "." ++ name)

/-- The variables that a call in promise style gives a value when they have none. -/
def Scope.callDefaults (scope : Scope) : List (String × Expr) :=
  [("metadata", .construct (.member (.ident scope.callRuntime) "Metadata") []),
    ("options", .emptyObject)]

/-- A route, a handler and a call describe one method with the given types. -/
structure Scope.Describes (scope : Scope) (settings : Settings) (method : MethodDescriptor)
    (input output : String) (route : Expr) (handler : ServerMethod) (call : ClientCall) :
    Prop where
  requestStream : ∃ streams, route.entry? "requestStream" = some (.bool streams) ∧
    (streams ↔ method.clientStreaming) ∧
    (streams ↔ scope.IsCallType (handler.call?.map Prod.fst)
      ["ServerReadableStream", "ServerDuplexStream"]) ∧
    (streams ↔ some "message" ∉ call.params.map Param.name?)
  responseStream : ∃ streams, route.entry? "responseStream" = some (.bool streams) ∧
    (streams ↔ method.serverStreaming) ∧
    (streams ↔ some "callback" ∉ handler.params.map Param.name?) ∧
    (streams ↔ scope.IsCallType call.resultName? ["ClientReadableStream", "ClientDuplexStream"])
  handlerTypes : handler.call?.map Prod.snd = some [scope.typeRef input, scope.typeRef output]
  callTypes : call.types = [scope.typeRef input, scope.typeRef output]
  requestSerialize : (route.entry? "requestSerialize").bind Expr.takes? =
    some (scope.typeRef input)
  requestDeserialize : (route.entry? "requestDeserialize").bind Expr.decodesBy? =
    some (scope.valueRef input)
  responseSerialize : (route.entry? "responseSerialize").bind Expr.takes? =
    some (scope.typeRef output)
  responseDeserialize : (route.entry? "responseDeserialize").bind Expr.decodesBy? =
    some (scope.valueRef output)
  handsOn : ∃ names, call.params.map Param.name? = names.map some ∧
    Stmt.HandsOn method.name names
      (if method.kind = .unary ∧ settings.givesPromises then some scope.callDefaults else none)
      call.body

/-! ## The calls of a plan -/

section Planned

variable {scope : Scope} {settings : Settings} {call : Call}

theorem streamsRequest_kind (method : MethodDescriptor) :
    method.kind.streamsRequest = method.clientStreaming := by
  rw [MethodDescriptor.kind]
  cases method.clientStreaming <;> cases method.serverStreaming <;> rfl

theorem streamsResponse_kind (method : MethodDescriptor) :
    method.kind.streamsResponse = method.serverStreaming := by
  rw [MethodDescriptor.kind]
  cases method.clientStreaming <;> cases method.serverStreaming <;> rfl

/-- Names of types of the call runtime are told apart behind the name of the runtime. -/
theorem isCallType_iff {name : String} {names : List String} :
    scope.IsCallType (some (scope.callRuntime ++ "." ++ name)) names ↔ name ∈ names := by
  simp only [Scope.IsCallType, Option.some.injEq, String.append_right_inj]
  exact ⟨fun ⟨_, h, hSame⟩ => hSame ▸ h, fun h => ⟨name, h, rfl⟩⟩

theorem isCallType_serverCall (kind : CallKind) :
    scope.IsCallType (some (scope.callRuntime ++ "." ++ kind.serverCall))
      ["ServerReadableStream", "ServerDuplexStream"] ↔ kind.streamsRequest := by
  rw [isCallType_iff]
  cases kind <;> decide

theorem message_mem_params :
    some "message" ∉ (Stub.function scope settings call).params.map Param.name? ↔
      call.kind.streamsRequest := by
  rw [Stub.function]
  cases call.kind with
  | unary =>
      cases settings.givesPromises <;>
        simp [Stub.message, Param.typed, Param.name?, CallKind.streamsRequest]
  | requestStream =>
      simp [Stub.callbackParams, Param.typed, Param.optionalTyped, Param.name?,
        CallKind.streamsRequest]
  | responseStream => simp [Stub.message, Param.typed, Param.name?, CallKind.streamsRequest]
  | duplex =>
      simp [Stub.plainParams, Param.optionalTyped, Param.name?, CallKind.streamsRequest]

theorem callback_mem_params :
    some "callback" ∉ (Handler.params scope call).map Param.name? ↔ call.kind.streamsResponse := by
  rw [Handler.params]
  cases call.kind.streamsResponse <;> simp [Param.typed, Param.name?]

/-- A promise is no type of the call runtime. -/
theorem not_isCallType_promise (names : List String) :
    ¬ scope.IsCallType (some "Promise") names := by
  rintro ⟨name, -, h⟩
  exact callTypeName_ne scope name (by decide) (Option.some.inj h).symm

theorem isCallType_result :
    scope.IsCallType (Stub.place scope settings call).resultName?
      ["ClientReadableStream", "ClientDuplexStream"] ↔ call.kind.streamsResponse := by
  rw [Stub.place, Stub.function, ClientCall.resultName?]
  cases call.kind with
  | unary =>
      cases settings.givesPromises with
      | true => simpa [CallKind.streamsResponse] using not_isCallType_promise _
      | false => simp [Scope.callType, isCallType_iff, CallKind.streamsResponse]
  | requestStream => simp [Scope.callType, isCallType_iff, CallKind.streamsResponse]
  | responseStream => simp [Scope.callType, isCallType_iff, CallKind.streamsResponse]
  | duplex => simp [Scope.callType, isCallType_iff, CallKind.streamsResponse]

theorem settling_settle :
    (Stub.settle scope call).Settling "resolve" "reject" :=
  .intro (by decide)

/-- A client hands on its own parameters, and does nothing else but to fill in the metadata and the
options of a promise. -/
theorem handsOn_function : ∃ names,
    (Stub.function scope settings call).params.map Param.name? = names.map some ∧
    Stmt.HandsOn call.name names
      (if call.kind = .unary ∧ settings.givesPromises then some scope.callDefaults else none)
      (Stub.function scope settings call).body := by
  rw [Stub.function]
  cases call.kind with
  | unary =>
      cases settings.givesPromises with
      | true =>
          exact ⟨["message", "metadata", "options"], rfl,
            .promised (by simp [Scope.callDefaults]) settling_settle (by decide)⟩
      | false => exact ⟨["message", "metadata", "options", "callback"], rfl, .direct⟩
  | requestStream => exact ⟨["metadata", "options", "callback"], rfl, .direct⟩
  | responseStream => exact ⟨["message", "metadata", "options"], rfl, .direct⟩
  | duplex => exact ⟨["metadata", "options"], rfl, .direct⟩

/-- The places of a call describe its method. -/
theorem describes_call {method : MethodDescriptor} (h : method.call = .ok call)
    (service : String) :
    scope.Describes settings method call.request call.response (Routes.route scope service call)
      ⟨call.name, Handler.params scope call⟩ (Stub.place scope settings call) := by
  obtain ⟨hName, hKind, -, -⟩ := MethodDescriptor.call_eq_ok h
  have hRequest : call.kind.streamsRequest = method.clientStreaming := by
    rw [hKind, streamsRequest_kind]
  have hResponse : call.kind.streamsResponse = method.serverStreaming := by
    rw [hKind, streamsResponse_kind]
  constructor
  case requestStream =>
    refine ⟨call.kind.streamsRequest, rfl, by rw [hRequest], ?_, message_mem_params.symm⟩
    exact (isCallType_serverCall call.kind).symm
  case responseStream =>
    exact ⟨call.kind.streamsResponse, rfl, by rw [hResponse], callback_mem_params.symm,
      isCallType_result.symm⟩
  case handsOn =>
    rw [← hName, ← hKind]
    exact handsOn_function
  -- every other place names a type of the call as it is
  all_goals rfl

end Planned

/-- **Routes, handlers and calls of a service agree.** -/
theorem service_agrees {scope : Scope} {settings : Settings} {service : ServiceDescriptor}
    {decls : List Decl} (generated : scope.serviceDecls settings service = .ok decls) :
    ∃ places, ServicePlaces.of? decls = some places ∧
      (∀ names ∈ [places.routes.map (propertyName ·.1), places.handlers.map ServerMethod.name,
          places.calls.map ClientCall.name],
        names = service.methods.map MethodDescriptor.name) ∧
      ∀ (i : Nat) method, service.methods[i]? = some method →
        ∃ input output key route handler call,
          method.inputType? = some input ∧ method.outputType? = some output ∧
          places.routes[i]? = some (key, route) ∧ places.handlers[i]? = some handler ∧
          places.calls[i]? = some call ∧
          scope.Describes settings method input output route handler call := by
  obtain ⟨plan, hPlan, hPlaces⟩ := places_service generated
  refine ⟨plan.places scope settings, hPlaces, ?_, ?_⟩
  · simp only [List.forall_mem_cons, List.not_mem_nil, false_imp_iff, implies_true, and_true,
      ServicePlan.places, List.map_map, ← service.callNames_of_plan hPlan]
    exact ⟨rfl, rfl, rfl⟩
  · intro i method hMethod
    obtain ⟨call, hCall, hPlanned⟩ := service.call_of_plan hPlan hMethod
    obtain ⟨-, -, hInput, hOutput⟩ := MethodDescriptor.call_eq_ok hPlanned
    exact ⟨call.request, call.response, .name call.name, Routes.route scope plan.name call,
      ⟨call.name, Handler.params scope call⟩, Stub.place scope settings call, hInput, hOutput,
      by simp [ServicePlan.places, hCall], by simp [ServicePlan.places, hCall],
      by simp [ServicePlan.places, hCall], describes_call hPlanned plan.name⟩

/-- A scope that imports the response type of a relay. -/
def ackScope : Scope :=
  (Scope.ofFile (Registry.empty.declare "ack.proto" ".Ack") .blank).importing "ack.proto"
    "dependency_1"

theorem service_agrees_relay :
    ∃ decls places route handler call,
      ackScope.serviceDecls promiseSettings relay = .ok decls ∧
      ServicePlaces.of? decls = some places ∧
      places.handlers.map ServerMethod.name = ["Send", "Upload", "Watch", "Talk"] ∧
      places.routes[0]? = some (.name "Send", route) ∧ places.handlers[0]? = some handler ∧
      places.calls[0]? = some call ∧
      ackScope.Describes promiseSettings ⟨"Send", some ".Note", some ".Ack", false, false⟩ ".Note"
        ".Ack" route handler call ∧
      call.types = [.named "Note", .named "dependency_1.Ack"] := by
  obtain ⟨places, hPlaces, hNames, h⟩ :=
    @service_agrees ackScope promiseSettings relay _ rfl
  cases hPlaces
  obtain ⟨input, output, key, route, handler, call, hInput, hOutput, hRoute, hHandler, hCall,
    hDescribes⟩ := h 0 _ rfl
  obtain rfl := Option.some.inj hInput
  obtain rfl := Option.some.inj hOutput
  have hTypes : [ackScope.typeRef ".Note", ackScope.typeRef ".Ack"] =
      [.named "Note", .named "dependency_1.Ack"] := rfl
  refine ⟨_, _, route, handler, call, rfl, rfl, hNames _ (by simp), ?_, hHandler, hCall, hDescribes,
    hDescribes.callTypes.trans hTypes⟩
  cases hRoute
  rfl

end Protoscribe

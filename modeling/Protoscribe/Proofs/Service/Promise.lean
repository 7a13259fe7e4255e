import Protoscribe.Proofs.Scope
import Protoscribe.Proofs.Service.Running

set_option autoImplicit false

/-! # What a promise call hands on

A promise call may be made in the ways that its interface lists: with metadata or without, and with
options or without (`calledWith_iff`). Its function fills in what is missing and calls the generic
client once (`run_place`). Main statement: `promise_delivers_iff`, the message, the metadata and
the options of the caller arrive in the positions for them exactly when the second argument is no
options object. Options in the second position arrive as the metadata, and none as the options
(`options_misplaced`).
-/

namespace Protoscribe

open TypeScript Evaluation

variable {α : Type}

/-! ## Running the body -/

/-- A value, or another one where it does not count as true. -/
def CallValue.or (value other : CallValue α) : CallValue α := if value.truth then value else other

/-- A function that settles a promise when it is called: it rejects with its first argument when
that counts as true, and else resolves with its second one. -/
def CallValue.Settles (callback : CallValue α) : Prop :=
  ∀ error response, ∃ σ, callback.run [error, response] = some σ ∧ σ.forwarded = [] ∧
    σ.settled = [if error.truth then (.rejected, error) else (.resolved, response)]

section Body

variable {scope : Scope} {call : Call} {σ : CallState α}

theorem assigned_same {name : String} {value : CallValue α} {locals : List (String × CallValue α)}
    (h : locals.lookup name = some value) : assigned name value locals = some locals := by
  induction locals with
  | nil => cases h
  | cons entry rest ih =>
      obtain ⟨other, old⟩ := entry
      rw [List.lookup_cons] at h
      by_cases hSame : other = name
      · obtain rfl : old = value := by simpa [hSame] using h
        simp [assigned, hSame]
      · have hOther : (name == other) = false := beq_eq_false_iff_ne.2 (Ne.symm hSame)
        rw [hOther] at h
        simp [assigned, hSame, ih h]

/-- A variable is filled in where its value does not count as true. -/
theorem execCall_fillIn {name : String} {e : Expr} {value default : CallValue α}
    {locals : List (String × CallValue α)} (hValue : σ.locals.lookup name = some value)
    (hDefault : evalCall e σ = some (default, σ))
    (hAssigned : assigned name (value.or default) σ.locals = some locals) :
    execCall (Stub.fillIn name e) σ = some (none, { σ with locals }) := by
  have hTest : evalCall (.not (.ident name)) σ = some (.bool !value.truth, σ) := by
    simp [Expr.not, evalCall, CallM.read_run hValue]
  simp only [Stub.fillIn, Stmt.guarded, execCall, bind_run, hTest, Option.bind_some]
  rw [CallValue.or] at hAssigned
  cases hTruth : value.truth with
  | true =>
      rw [hTruth, if_pos rfl, assigned_same hValue] at hAssigned
      obtain rfl := Option.some.inj hAssigned
      rfl
  | false =>
      rw [hTruth, if_neg Bool.false_ne_true] at hAssigned
      simp [CallValue.truth, Expr.assign, execCalls, execCall, evalCall, hDefault, CallM.write,
        hAssigned]

/-- The callback of a promise settles it. -/
theorem evalCall_settle (hResolve : σ.locals.lookup "resolve" = some (.settler .resolved))
    (hReject : σ.locals.lookup "reject" = some (.settler .rejected)) :
    ∃ callback, evalCall (Stub.settle scope call) σ = some (callback, σ) ∧ callback.Settles := by
  rw [Stub.settle, evalCall]
  refine ⟨_, rfl, fun error response => ?_⟩
  cases hTruth : error.truth <;>
    simp [CallValue.run, runFunction, parameterValues, Param.typed, execCalls, execCall,
      evalCall, CallM.read, CallM.settle, List.lookup_cons, hResolve, hReject, hTruth]

/-- The promise calls the generic client once, with the variables and a callback. -/
theorem evalCall_promise {message metadata options : CallValue α}
    (hMessage : σ.locals.lookup "message" = some message)
    (hMetadata : σ.locals.lookup "metadata" = some metadata)
    (hOptions : σ.locals.lookup "options" = some options) : ∃ callback,
    evalCall (.construct (.ident "Promise") [.lambda [.bare "resolve", .bare "reject"]
      (Stub.forward call [.ident "message", .ident "metadata", .ident "options",
        Stub.settle scope call])]) σ =
      some (.promise, { σ with
        forwarded := σ.forwarded ++ [(call.name, [message, metadata, options, callback])] }) ∧
    callback.Settles := by
  -- the two parameters of the promise hide no other variable
  let inner : CallState α := { σ with
    locals := ("resolve", .settler .resolved) :: ("reject", .settler .rejected) :: σ.locals }
  obtain ⟨callback, hCallback, hSettles⟩ :=
    @evalCall_settle α scope call inner rfl rfl
  refine ⟨callback, ?_, hSettles⟩
  have hArguments : evalCallArgs [.ident "message", .ident "metadata", .ident "options",
      Stub.settle scope call] inner = some ([message, metadata, options, callback], inner) := by
    have hFirst : CallM.read "message" inner = some (message, inner) := CallM.read_run hMessage
    have hSecond : CallM.read "metadata" inner = some (metadata, inner) := CallM.read_run hMetadata
    have hThird : CallM.read "options" inner = some (options, inner) := CallM.read_run hOptions
    simp [evalCallArgs, evalCall, hFirst, hSecond, hThird, hCallback]
  simp only [Expr.lambda, evalCall, if_true, bind_run, CallM.within, parameterValues,
    Param.bare, Stub.forward]
  -- the promise runs the call of the generic client at once
  change ((((evalCallArgs _ inner).bind _).bind _).bind _) = _
  rw [hArguments]
  rfl

/-- The body of a promise call fills in what is missing before it hands the variables on. -/
theorem execCalls_promiseBody (hRuntime : scope.callRuntime = "grpc_1")
    (message metadata options : CallValue α) : ∃ callback σ,
    execCalls (Stub.promiseBody scope call)
        ⟨[("message", message), ("metadata", metadata), ("options", options)], [], []⟩ =
      some (some .promise, σ) ∧
    σ.forwarded = [(call.name, [message, metadata.or (.made ["grpc_1", "Metadata"]),
      options.or .empty, callback])] ∧
    σ.settled = [] ∧ callback.Settles := by
  -- the states before, between and after the two statements that fill in
  let filled := metadata.or (.made ["grpc_1", "Metadata"])
  let start : CallState α :=
    ⟨[("message", message), ("metadata", metadata), ("options", options)], [], []⟩
  let second : CallState α :=
    ⟨[("message", message), ("metadata", filled), ("options", options)], [], []⟩
  let last : CallState α :=
    ⟨[("message", message), ("metadata", filled), ("options", options.or .empty)], [], []⟩
  have hMade : evalCall (.construct (.member (.ident scope.callRuntime) "Metadata") []) start =
      some (.made ["grpc_1", "Metadata"], start) := by
    rw [hRuntime]
    rfl
  have hFirst : execCall (Stub.fillIn "metadata"
      (.construct (.member (.ident scope.callRuntime) "Metadata") [])) start =
        some (none, second) :=
    execCall_fillIn rfl hMade rfl
  have hSecond : execCall (Stub.fillIn "options" .emptyObject) second = some (none, last) :=
    execCall_fillIn rfl rfl rfl
  obtain ⟨callback, hPromise, hSettles⟩ :=
    @evalCall_promise α scope call last message filled (options.or .empty) rfl rfl rfl
  refine ⟨callback, { last with
    forwarded := [(call.name, [message, filled, options.or .empty, callback])] }, ?_, rfl, rfl,
    hSettles⟩
  rw [Stub.promiseBody]
  change execCalls _ start = _
  simp only [execCalls, bind_run, hFirst, hSecond, Option.bind_some, Stmt.give, execCall,
    hPromise]
  rfl

/-- An argument that is missing is undefined. -/
theorem parameterValues_promise (message : α) {rest : List α} (short : rest.length ≤ 2) :
    parameterValues (Stub.message scope call :: Stub.plainParams scope)
        ((message :: rest).map .given) =
      some [("message", .given message), ("metadata", (rest[0]?).elim .undefined .given),
        ("options", (rest[1]?).elim .undefined .given)] :=
  match rest, short with
  | [], _ => rfl
  | [_], _ => rfl
  | [_, _], _ => rfl

/-- An object counts as true, so only what is missing is filled in. -/
theorem elim_or (object? : Option α) (other : CallValue α) :
    (object?.elim .undefined .given : CallValue α).or other = object?.elim other .given := by
  cases object? <;> rfl

/-- What a promise call does with a message and at most two more objects. -/
theorem run_place {settings : Settings} (hRuntime : scope.callRuntime = "grpc_1")
    (promises : settings.givesPromises) (unary : call.kind = .unary) (message : α) {rest : List α}
    (short : rest.length ≤ 2) : ∃ callback σ,
    (Stub.place scope settings call).run ((message :: rest).map .given) = some (.promise, σ) ∧
    σ.forwarded = [(call.name, [.given message,
      (rest[0]?).elim (.made ["grpc_1", "Metadata"]) .given, (rest[1]?).elim .empty .given,
      callback])] ∧
    σ.settled = [] ∧ callback.Settles := by
  obtain ⟨callback, σ, hRun, hForwarded, hSettled, hSettles⟩ :=
    @execCalls_promiseBody α scope call hRuntime (.given message)
      ((rest[0]?).elim .undefined .given) ((rest[1]?).elim .undefined .given)
  rw [elim_or, elim_or] at hForwarded
  have hFunction : Stub.function scope settings call =
      ⟨"GrpcPromiseServiceInterface", Stub.message scope call :: Stub.plainParams scope,
        .reference "Promise" [scope.responseType call], Stub.promiseBody scope call⟩ := by
    rw [Stub.function, unary]
    simp [promises]
  refine ⟨callback, σ, ?_, hForwarded, hSettled, hSettles⟩
  rw [ClientCall.run, Stub.place, hFunction, runFunction, parameterValues_promise message short]
  simp [hRun]

end Body

/-! ## The ways of calling -/

mutual

/-- A type with types for its parameters. -/
def TypeScript.Ty.instantiate (arguments : List (String × Ty)) : Ty → Ty
  | .reference name [] => (arguments.lookup name).getD (.reference name [])
  | .reference name types => .reference name (instantiateAll arguments types)
  | .array element => .array (element.instantiate arguments)
  | .union members => .union (instantiateAll arguments members)
  | .intersection members => .intersection (instantiateAll arguments members)
  | .record properties index =>
    .record (instantiateProperties arguments properties) (instantiateIndex arguments index)
  | .literal value => .literal value
  | .query path => .query path

def TypeScript.instantiateAll (arguments : List (String × Ty)) : List Ty → List Ty
  | [] => []
  | type :: rest => type.instantiate arguments :: instantiateAll arguments rest

def TypeScript.instantiateProperties (arguments : List (String × Ty)) :
    List (PropertyType Ty) → List (PropertyType Ty)
  | [] => []
  | ⟨name, optional, type⟩ :: rest =>
    ⟨name, optional, type.instantiate arguments⟩ :: instantiateProperties arguments rest

def TypeScript.instantiateIndex (arguments : List (String × Ty)) :
    Option (IndexType Ty) → Option (IndexType Ty)
  | none => none
  | some ⟨parameter, key, value⟩ =>
    some ⟨parameter, key.instantiate arguments, value.instantiate arguments⟩

end

/-- The lists of objects that parameters take: each has the type of its parameter, and from some
optional parameter on nothing is given. -/
inductive CalledWith (typeOf : α → Ty) (types : List (String × Ty)) : List Param → List α → Prop
  | nil : CalledWith typeOf types [] []
  | given {p : Param} {ps : List Param} {a : α} {rest : List α} {type : Ty}
      (declared : p.type = some type) (fits : typeOf a = type.instantiate types)
      (h : CalledWith typeOf types ps rest) : CalledWith typeOf types (p :: ps) (a :: rest)
  | omitted {p : Param} {ps : List Param} (optional : p.optional = true)
      (h : CalledWith typeOf types ps []) : CalledWith typeOf types (p :: ps) []

theorem calledWith_typed {typeOf : α → Ty} {types : List (String × Ty)} {name : String} {type : Ty}
    {ps : List Param} {objects : List α} :
    CalledWith typeOf types (.typed name type :: ps) objects ↔
      ∃ a rest, objects = a :: rest ∧ typeOf a = type.instantiate types ∧
        CalledWith typeOf types ps rest := by
  constructor
  · intro h
    cases h with
    | given declared fits h =>
        obtain rfl := Option.some.inj declared
        exact ⟨_, _, rfl, fits, h⟩
    | omitted optional => cases optional
  · rintro ⟨a, rest, rfl, fits, h⟩
    exact .given rfl fits h

/-- The last parameter, when it may be left out. -/
theorem calledWith_optional {typeOf : α → Ty} {types : List (String × Ty)} {name : String}
    {type : Ty} {objects : List α} :
    CalledWith typeOf types [.optionalTyped name type] objects ↔
      objects = [] ∨ ∃ a, objects = [a] ∧ typeOf a = type.instantiate types := by
  constructor
  · intro h
    cases h with
    | given declared fits h =>
        obtain rfl := Option.some.inj declared
        cases h
        exact Or.inr ⟨_, rfl, fits⟩
    | omitted => exact Or.inl rfl
  · rintro (rfl | ⟨a, rfl, fits⟩)
    · exact .omitted rfl .nil
    · exact .given rfl fits .nil

/-- The interface of a name, among declarations. -/
def callable? (name : String) : Decl → Option InterfaceDecl
  | .callable decl => if decl.name = name then some decl else none
  | _ => none

/-- The interface of promise calls. -/
def promiseInterface (scope : Scope) : InterfaceDecl :=
  ⟨"GrpcPromiseServiceInterface", ["P", "R"],
    (Overloads.withoutCallback scope [Overloads.message]).map fun params =>
      ⟨params, .reference "Promise" [Overloads.response]⟩⟩

theorem callable?_promise (scope : Scope) :
    (Overloads.all scope).findSome? (callable? "GrpcPromiseServiceInterface") =
      some (promiseInterface scope) := by
  simp [Overloads.all, Overloads.overloads, callable?, promiseInterface]

section Calling

variable {scope : Scope}

/-- A type of the call runtime does not depend on the types of messages. -/
theorem instantiate_callType (name : String) (request response : Ty) :
    (scope.callType name []).instantiate [("P", request), ("R", response)] =
      scope.callType name [] := by
  have hRequest := beq_eq_false_iff_ne.2 (@callTypeName_ne scope name "P" (by decide))
  have hResponse := beq_eq_false_iff_ne.2 (@callTypeName_ne scope name "R" (by decide))
  rw [Scope.callType, Ty.instantiate, List.lookup_cons, hRequest, List.lookup_cons, hResponse]
  rfl

/-- The ways to make a promise call: with metadata or without, and with options or without. -/
theorem calledWith_iff {typeOf : α → Ty} {request response : Ty} {objects : List α} :
    (∃ signature ∈ (promiseInterface scope).signatures,
      CalledWith typeOf [("P", request), ("R", response)] signature.params objects) ↔
    ∃ message rest, objects = message :: rest ∧ typeOf message = request ∧
      (rest = [] ∨
        (∃ a, rest = [a] ∧ typeOf a = scope.callType "CallOptions" []) ∨
        (∃ a, rest = [a] ∧ typeOf a = scope.callType "Metadata" []) ∨
        ∃ a b, rest = [a, b] ∧ typeOf a = scope.callType "Metadata" [] ∧
          typeOf b = scope.callType "CallOptions" []) := by
  have hRequest : Overloads.request.instantiate [("P", request), ("R", response)] = request := by
    simp [Overloads.request, Ty.named, Ty.instantiate]
  simp only [promiseInterface, Overloads.withoutCallback, List.map_cons, List.map_nil,
    List.mem_cons, List.not_mem_nil, or_false, exists_eq_or_imp, exists_eq_left,
    Overloads.message, Overloads.metadata, Overloads.maybeOptions, List.cons_append,
    List.nil_append, calledWith_typed, calledWith_optional, instantiate_callType, hRequest]
  constructor
  · rintro (⟨message, _, rfl, hMessage, a, _, rfl, ha, rfl | ⟨b, rfl, hb⟩⟩ |
      ⟨message, _, rfl, hMessage, rfl | ⟨b, rfl, hb⟩⟩)
    · exact ⟨message, _, rfl, hMessage, Or.inr (Or.inr (Or.inl ⟨a, rfl, ha⟩))⟩
    · exact ⟨message, _, rfl, hMessage, Or.inr (Or.inr (Or.inr ⟨a, b, rfl, ha, hb⟩))⟩
    · exact ⟨message, _, rfl, hMessage, Or.inl rfl⟩
    · exact ⟨message, _, rfl, hMessage, Or.inr (Or.inl ⟨b, rfl, hb⟩)⟩
  · rintro ⟨message, _, rfl, hMessage, rfl | ⟨b, rfl, hb⟩ | ⟨a, rfl, ha⟩ | ⟨a, b, rfl, ha, hb⟩⟩
    · exact Or.inr ⟨message, _, rfl, hMessage, Or.inl rfl⟩
    · exact Or.inr ⟨message, _, rfl, hMessage, Or.inr ⟨b, rfl, hb⟩⟩
    · exact Or.inl ⟨message, _, rfl, hMessage, a, _, rfl, ha, Or.inl rfl⟩
    · exact Or.inl ⟨message, _, rfl, hMessage, a, _, rfl, ha, Or.inr ⟨b, rfl, hb⟩⟩

end Calling

/-! ## What arrives -/

/-- A value is the object of a type among the ones that were passed, or else another value. -/
def Passes (typeOf : α → Ty) (type : Ty) (objects : List α) (other value : CallValue α) : Prop :=
  (∃ a ∈ objects, typeOf a = type ∧ value = .given a) ∨
    ((∀ a ∈ objects, typeOf a ≠ type) ∧ value = other)

/-- The arguments of the generic client are what the caller passed, each in its position: the
message, the metadata or new metadata, the options or an empty object, and the callback. -/
def Scope.Delivers (scope : Scope) (typeOf : α → Ty) (objects : List α)
    (handed : List (CallValue α)) : Prop :=
  ∃ message rest metadata options callback, objects = message :: rest ∧
    handed = [.given message, metadata, options, callback] ∧
    Passes typeOf (scope.callType "Metadata" []) rest (.made [scope.callRuntime, "Metadata"])
      metadata ∧
    Passes typeOf (scope.callType "CallOptions" []) rest .empty options ∧ callback.Settles

section Delivery

variable {scope : Scope} {typeOf : α → Ty}

theorem delivers_cons {message : α} {rest : List α} {metadata options callback : CallValue α}
    (settles : callback.Settles) :
    scope.Delivers typeOf (message :: rest) [.given message, metadata, options, callback] ↔
      Passes typeOf (scope.callType "Metadata" []) rest (.made [scope.callRuntime, "Metadata"])
        metadata ∧
      Passes typeOf (scope.callType "CallOptions" []) rest .empty options := by
  constructor
  · rintro ⟨_, _, _, _, _, hObjects, hHanded, hMetadata, hOptions, -⟩
    cases hObjects
    cases hHanded
    exact ⟨hMetadata, hOptions⟩
  · rintro ⟨hMetadata, hOptions⟩
    exact ⟨_, _, _, _, _, rfl, rfl, hMetadata, hOptions, settles⟩

theorem metadata_ne_options (scope : Scope) :
    scope.callType "Metadata" [] ≠ scope.callType "CallOptions" [] := by
  intro h
  have hNames : scope.callRuntime ++ "." ++ "Metadata" =
      scope.callRuntime ++ "." ++ "CallOptions" :=
    (Ty.reference.inj h).1
  exact absurd (String.append_right_inj _ |>.1 hNames) (by decide)

/-- Of the four ways to make a promise call, the one with options in the second position does not
deliver them. -/
theorem delivers_iff (hRuntime : scope.callRuntime = "grpc_1") {message : α} {rest : List α}
    {callback : CallValue α} (settles : callback.Settles)
    (ways : rest = [] ∨ (∃ a, rest = [a] ∧ typeOf a = scope.callType "CallOptions" []) ∨
      (∃ a, rest = [a] ∧ typeOf a = scope.callType "Metadata" []) ∨
      ∃ a b, rest = [a, b] ∧ typeOf a = scope.callType "Metadata" [] ∧
        typeOf b = scope.callType "CallOptions" []) :
    scope.Delivers typeOf (message :: rest) [.given message,
        (rest[0]?).elim (.made ["grpc_1", "Metadata"]) .given, (rest[1]?).elim .empty .given,
        callback] ↔
      ∀ a, rest[0]? = some a → typeOf a ≠ scope.callType "CallOptions" [] := by
  have hApart := metadata_ne_options scope
  rw [delivers_cons settles, hRuntime]
  rcases ways with rfl | ⟨a, rfl, ha⟩ | ⟨a, rfl, ha⟩ | ⟨a, b, rfl, ha, hb⟩
  · simp [Passes]
  -- an options object stands where metadata is expected
  · simp [Passes, ha, hApart.symm]
  · simp [Passes, ha, hApart]
  · simp [Passes, ha, hb, hApart, hApart.symm]

end Delivery

/-- **A promise call delivers its arguments exactly when the second one is no options object.** -/
theorem promise_delivers_iff {file : FileDescriptor} {registry : Registry} {settings : Settings}
    {service : ServiceDescriptor} {decls : List Decl}
    (generated : (file.scope registry).serviceDecls settings service = .ok decls)
    (promises : settings.givesPromises) {i : Nat} {method : MethodDescriptor}
    (listed : service.methods[i]? = some method)
    (unary : method.clientStreaming = false ∧ method.serverStreaming = false)
    (typeOf : α → Ty) :
    ∃ places call interface, ServicePlaces.of? decls = some places ∧
      places.calls[i]? = some call ∧
      (Overloads.all (file.scope registry)).findSome? (callable? call.overloads) = some interface ∧
      ∀ signature ∈ interface.signatures, ∀ objects,
        CalledWith typeOf (interface.typeParams.zip call.types) signature.params objects →
        ∃ handed σ, call.run (objects.map .given) = some (.promise, σ) ∧
          σ.forwarded = [(method.name, handed)] ∧ σ.settled = [] ∧
          (∃ message callback, objects[0]? = some message ∧ callback.Settles ∧
            handed = [.given message, (objects[1]?).elim (.made ["grpc_1", "Metadata"]) .given,
              (objects[2]?).elim .empty .given, callback]) ∧
          ((file.scope registry).Delivers typeOf objects handed ↔
            ∀ a, objects[1]? = some a →
              typeOf a ≠ (file.scope registry).callType "CallOptions" []) := by
  have hRuntime := file.scope_callRuntime registry
  generalize file.scope registry = scope at hRuntime generated
  obtain ⟨plan, hPlan, hPlaces⟩ := places_service generated
  obtain ⟨planned, hCall, hPlanned⟩ := ServiceDescriptor.call_of_plan hPlan listed
  obtain ⟨hName, hKind, -, -⟩ := MethodDescriptor.call_eq_ok hPlanned
  have hUnary : planned.kind = .unary := by
    rw [hKind, MethodDescriptor.kind, unary.1, unary.2]
    rfl
  refine ⟨plan.places scope settings, Stub.place scope settings planned, promiseInterface scope,
    hPlaces, by simp [ServicePlan.places, hCall], ?_, ?_⟩
  · have hInterface : (Stub.place scope settings planned).overloads =
        "GrpcPromiseServiceInterface" := by
      simp [Stub.place, Stub.function, hUnary, promises]
    rw [hInterface, callable?_promise]
  · intro signature hSignature objects hObjects
    obtain ⟨message, rest, rfl, -, hWays⟩ :=
      (@calledWith_iff α scope typeOf (scope.requestType planned) (scope.responseType planned)
        objects).1 ⟨signature, hSignature, hObjects⟩
    have hShort : rest.length ≤ 2 := by
      rcases hWays with rfl | ⟨a, rfl, -⟩ | ⟨a, rfl, -⟩ | ⟨a, b, rfl, -, -⟩ <;> simp
    obtain ⟨callback, σ, hRun, hForwarded, hSettled, hSettles⟩ :=
      run_place hRuntime promises hUnary message hShort
    rw [hName] at hForwarded
    exact ⟨_, σ, hRun, hForwarded, hSettled, ⟨message, callback, rfl, hSettles, rfl⟩,
      delivers_iff hRuntime hSettles hWays⟩

/-- The scope of a file that imports nothing. -/
def relayScope : Scope := FileDescriptor.blank.scope .empty

/-- The first call of the client of a relay. -/
def sendPlace : ClientCall :=
  Stub.place relayScope promiseSettings ⟨"Send", .unary, ".Note", ".Ack"⟩

/-- The types of three objects of a caller. -/
def callerType (object : String) : Ty :=
  if object = "metadata" then relayScope.callType "Metadata" []
  else if object = "options" then relayScope.callType "CallOptions" []
  else relayScope.typeRef ".Note"

/-- The client of a relay can be called with a message, metadata and options, and with a message
and options. -/
theorem calledWith_relay {rest : List String}
    (h : rest = ["metadata", "options"] ∨ rest = ["options"]) :
    ∃ signature ∈ (promiseInterface relayScope).signatures,
      CalledWith callerType ((promiseInterface relayScope).typeParams.zip sendPlace.types)
        signature.params ("note" :: rest) := by
  refine calledWith_iff.2 ⟨"note", rest, rfl, rfl, ?_⟩
  rcases h with rfl | rfl
  · exact Or.inr (Or.inr (Or.inr ⟨_, _, rfl, rfl, rfl⟩))
  · exact Or.inr (Or.inl ⟨_, rfl, rfl⟩)

theorem promise_delivers_iff_relay :
    ∃ decls places call handed σ, relayScope.serviceDecls promiseSettings relay = .ok decls ∧
      promiseSettings.givesPromises ∧ ServicePlaces.of? decls = some places ∧
      places.calls[0]? = some call ∧
      call.run (["note", "metadata", "options"].map .given) = some (.promise, σ) ∧
      σ.forwarded = [("Send", handed)] ∧
      relayScope.Delivers callerType ["note", "metadata", "options"] handed := by
  obtain ⟨places, call, interface, hPlaces, hCall, hInterface, h⟩ :=
    @promise_delivers_iff String .blank .empty promiseSettings relay _ rfl rfl 0 _ rfl
      ⟨rfl, rfl⟩ callerType
  cases hPlaces
  obtain rfl : call = sendPlace := Option.some.inj hCall.symm
  obtain rfl : interface = promiseInterface relayScope :=
    Option.some.inj (hInterface.symm.trans (callable?_promise relayScope))
  obtain ⟨signature, hSignature, hCalled⟩ := calledWith_relay (Or.inl rfl)
  obtain ⟨handed, σ, hRun, hForwarded, -, -, hDelivers⟩ := h signature hSignature _ hCalled
  refine ⟨_, _, sendPlace, handed, σ, rfl, rfl, rfl, rfl, hRun, hForwarded,
    hDelivers.2 fun a ha => ?_⟩
  obtain rfl := Option.some.inj ha
  exact metadata_ne_options relayScope

/-- **Options in the second position are handed on as the metadata**, and an empty object in place
of the options. -/
theorem options_misplaced :
    ∃ decls places call interface signature callback σ,
      relayScope.serviceDecls promiseSettings relay = .ok decls ∧
      promiseSettings.givesPromises ∧ ServicePlaces.of? decls = some places ∧
      places.calls[0]? = some call ∧
      (Overloads.all relayScope).findSome? (callable? call.overloads) = some interface ∧
      signature ∈ interface.signatures ∧
      CalledWith callerType (interface.typeParams.zip call.types) signature.params
        ["note", "options"] ∧
      callerType "options" = relayScope.callType "CallOptions" [] ∧
      call.run (["note", "options"].map .given) = some (.promise, σ) ∧
      σ.forwarded = [("Send", [.given "note", .given "options", .empty, callback])] ∧
      ¬ relayScope.Delivers callerType ["note", "options"]
        [.given "note", .given "options", .empty, callback] := by
  obtain ⟨signature, hSignature, hCalled⟩ := calledWith_relay (Or.inr rfl)
  obtain ⟨callback, σ, hRun, hForwarded, -, hSettles⟩ :=
    @run_place String relayScope ⟨"Send", .unary, ".Note", ".Ack"⟩ promiseSettings rfl rfl rfl
      "note" ["options"] (by decide)
  refine ⟨_, _, sendPlace, promiseInterface relayScope, signature, callback, σ, rfl, rfl, rfl, rfl,
    callable?_promise relayScope, hSignature, hCalled, rfl, hRun, hForwarded, fun h => ?_⟩
  exact (@delivers_iff String relayScope callerType rfl "note" ["options"] callback hSettles
    (Or.inr (Or.inl ⟨_, rfl, rfl⟩))).1 h "options" rfl rfl

end Protoscribe

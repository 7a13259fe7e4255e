import Protoscribe.Proofs.Message.Classes

set_option autoImplicit false

/-! # New instances

Main statement: `construct_run`, a new instance of a class holds an empty list for each list and an
empty map for each map, and nothing else. What a constructor does with an argument is
`invoke_construct`: the lists are set up, the argument is copied, and the maps that the argument
left out are made.
-/

namespace Protoscribe

open TypeScript Evaluation

section Construction

variable {scope : Scope} {m : MessageDescriptor} {plan : Plan} {typeName : String} {fuel : Nat}
  {call : Invocation → M Value} {t : Fields} {σ : Store}

/-! ## Fields of a new instance -/

/-- The fields after the lists were set up. -/
def Plan.lists (plan : Plan) : Fields :=
  fun number => if number ∈ Instance.listNumbers plan then some (.list []) else none

/-- The content of a property in a new instance: lists and maps are there, and empty. -/
def Property.initial (p : Property) : Option Value :=
  if p.slot.isList then some (.list []) else if p.isMap then some (.map []) else none

/-- The fields of a new instance. -/
def Plan.fresh (plan : Plan) : Fields :=
  (plan.properties.filter (·.isMap)).foldl (fun t p => t.put p.number (.map [])) plan.lists

theorem foldl_put_number (number : Int) :
    ∀ (ps : List Property) (t : Fields),
      ps.foldl (fun t p => t.put p.number (.map [])) t number =
        if number ∈ ps.map Property.number then some (.map []) else t number
  | [], t => by simp
  | p :: ps, t => by
      rw [List.foldl_cons, foldl_put_number number ps]
      by_cases hRest : number ∈ ps.map Property.number
      · simp [hRest]
      · by_cases hSame : number = p.number
        · simp [hSame, Fields.put_number (v := .map []) rfl]
        · simp [hRest, hSame, Fields.put]

theorem mem_numbers (hPlan : scope.plan m = .ok plan) (distinct : m.DistinctNumbers)
    {q : Property} (hq : q ∈ plan.properties) {keep : Property → Bool} :
    q.number ∈ (plan.properties.filter keep).map Property.number ↔ keep q := by
  constructor
  · intro h
    obtain ⟨p, hp, hSame⟩ := List.mem_map.1 h
    obtain ⟨hpMem, hpKept⟩ := List.mem_filter.1 hp
    rwa [← eq_of_number_eq hPlan distinct hpMem hq hSame]
  · intro h
    exact List.mem_map.2 ⟨q, List.mem_filter.2 ⟨hq, h⟩, rfl⟩

theorem isList_of_isMap (hPlan : scope.plan m = .ok plan) {p : Property}
    (hp : p ∈ plan.properties) (hMap : p.isMap) : p.slot.isList = false := by
  have hList := isList_eq hPlan hp
  rw [Property.isMap] at hMap
  cases hContent : p.content with
  | map key value => rw [hList, hContent]
  | message other repeated write => simp [hContent] at hMap
  | scalar repeated packed write read => simp [hContent] at hMap

theorem lists_number (hPlan : scope.plan m = .ok plan) (distinct : m.DistinctNumbers)
    {q : Property} (hq : q ∈ plan.properties) :
    plan.lists q.number = if q.slot.isList then some (.list []) else none := by
  rw [Plan.lists, Instance.listNumbers]
  simp only [mem_numbers hPlan distinct hq]

/-- A new instance has empty lists and maps, and nothing else. -/
theorem fresh_number (hPlan : scope.plan m = .ok plan) (distinct : m.DistinctNumbers)
    {q : Property} (hq : q ∈ plan.properties) : plan.fresh q.number = q.initial := by
  rw [Plan.fresh, foldl_put_number, lists_number hPlan distinct hq, Property.initial]
  simp only [mem_numbers hPlan distinct hq]
  by_cases hMap : q.isMap
  · simp [hMap, isList_of_isMap hPlan hq hMap]
  · simp [hMap]

/-- The fields in which a map that is not there is empty. -/
def Evaluation.Fields.ensureMap (t : Fields) (p : Property) : Fields :=
  if (t p.number).isSome then t else t.put p.number (.map [])

/-- Afterwards the maps are there, and everything else is as it was. -/
theorem foldl_ensureMap_number (number : Int) :
    ∀ (ps : List Property) (t : Fields),
      ps.foldl Fields.ensureMap t number =
        if number ∈ ps.map Property.number ∧ t number = none then some (.map []) else t number
  | [], t => by simp
  | p :: ps, t => by
      rw [List.foldl_cons, foldl_ensureMap_number number ps, Fields.ensureMap]
      by_cases hSome : (t p.number).isSome
      · obtain ⟨v, hValue⟩ := Option.isSome_iff_exists.1 hSome
        by_cases hSame : number = p.number
        · simp [hSame, hValue]
        · simp [hSame, hValue]
      · have hNone : t p.number = none := by simpa using hSome
        by_cases hSame : number = p.number
        · simp [hSame, hNone, Fields.put_number (v := .map []) rfl]
        · simp [hSame, hNone, Fields.put]

/-- Where no map is there, the maps of a new instance are put in. -/
theorem foldl_ensureMap_lists (hPlan : scope.plan m = .ok plan) (distinct : m.DistinctNumbers) :
    (plan.properties.filter (·.isMap)).foldl Fields.ensureMap plan.lists = plan.fresh := by
  funext number
  rw [foldl_ensureMap_number, Plan.fresh, foldl_put_number]
  by_cases hMem : number ∈ (plan.properties.filter (·.isMap)).map Property.number
  · obtain ⟨p, hp, rfl⟩ := List.mem_map.1 hMem
    obtain ⟨hpMem, hpMap⟩ := List.mem_filter.1 hp
    have hNone : plan.lists p.number = none := by
      rw [lists_number hPlan distinct hpMem, isList_of_isMap hPlan hpMem hpMap]
      rfl
    rw [if_pos ⟨hMem, hNone⟩, if_pos hMem]
  · rw [if_neg fun h => hMem h.1, if_neg hMem]

/-! ## The constructor -/

/-- The state in which a constructor runs. -/
def constructingStore (names : Names) (data : Value) (typeName : String) (t : Fields) (σ : Store) :
    Store :=
  { σ with frame := ⟨.instance typeName t, names, [("data", some data)]⟩ }

variable {names : Names} {data : Value}

theorem eval_data :
    eval fuel call Instance.data (constructingStore names data typeName t σ) =
      some (data, constructingStore names data typeName t σ) := eval_variable rfl

section Argument

variable (hArray : names.reach ["Array"] = .global)

include hArray

/-- Neither a record nor a missing argument is positional. -/
theorem eval_isPositional (hData : globalCall "Array" "isArray" [data] = some (.bool false)) :
    eval fuel call Instance.isPositional (constructingStore names data typeName t σ) =
      some (.bool false, constructingStore names data typeName t σ) :=
  eval_global ⟨rfl, hArray⟩ (values_cons eval_data values_nil) hData

/-- The runtime sets up the lists. -/
theorem eval_setUp (hRuntime : names.runtime = scope.runtime)
    (hData : globalCall "Array" "isArray" [data] = some (.bool false)) :
    eval fuel call (Instance.setUp scope plan) (constructingStore names data typeName t σ) =
      some (.undefined, constructingStore names data typeName plan.lists σ) := by
  have hArray : eval fuel call (.conditional Instance.isPositional Instance.data (.array []))
      (constructingStore names data typeName t σ) =
        some (.list [], constructingStore names data typeName t σ) := by
    rw [eval, bind_run, eval_isPositional hArray hData]
    simp [Value.bool, Value.truth, eval, evalArgs, values]
  have hGroups : eval fuel call (.array (plan.groupNumbers.map Expr.ints))
      (constructingStore names data typeName t σ) =
        some (.list (plan.groupNumbers.map fun numbers => .list (numbers.map .int)),
          constructingStore names data typeName t σ) := by
    rw [eval, bind_run, values_map fun numbers _ => eval_ints numbers]
    rfl
  have hArgs := values_cons hArray (values_cons (eval_int 0) (values_cons (eval_int (-1))
    (values_cons (eval_ints (Instance.listNumbers plan)) (values_cons hGroups values_nil))))
  have hFunction : Runtime.functions.lookup "initialize" = some Runtime.setUp := rfl
  refine eval_runtimeCall_this hRuntime rfl hFunction hArgs ?_
  simp only [Runtime.setUp, intsOf_ints]
  rfl

/-- The test whether the argument is a record. -/
theorem eval_isRecord {type : String}
    (hData : globalCall "Array" "isArray" [data] = some (.bool false))
    (hType : data.typeOf = some type) :
    eval fuel call Instance.isRecord (constructingStore names data typeName t σ) =
      some (.bool (decide (type = "object")), constructingStore names data typeName t σ) := by
  have hObject : eval fuel call (.string "object") (constructingStore names data typeName t σ) =
      some (.string "object", constructingStore names data typeName t σ) := rfl
  rw [Instance.isRecord, eval_and (eval_not (eval_isPositional hArray hData) rfl) rfl]
  have hSame : operate "==" (.string type) (.string "object") =
      some (.bool (decide (type = "object"))) := by
    simp [operate, Value.looselyEqual, Value.string, Value.isMissing, Value.typeOf,
      Value.strictlyEqual, Scalar.same]
  exact eval_operate (by decide) (eval_typeOf eval_data hType) hObject hSame

/-- A missing argument holds nothing to copy. -/
theorem copy_undefined_run :
    exec fuel call (.guarded Instance.isRecord (plan.properties.map Instance.copy))
        (constructingStore names .undefined typeName t σ) =
      some (.next, constructingStore names .undefined typeName t σ) := by
  rw [exec_guarded (eval_isRecord hArray rfl rfl) rfl]
  rfl

end Argument

/-- A map that is not there becomes an empty map. -/
theorem ensureMap_run (hPlan : scope.plan m = .ok plan) (legal : m.Legal scope)
    (hAccess : Accesses scope plan typeName call) (hMap : names.reach ["Map"] = .global)
    {p : Property} (hp : p ∈ plan.properties) (hIsMap : p.isMap)
    (hThere : ∀ v, t p.number = some v → v.truth = some true) :
    exec fuel call (Instance.ensureMap p) (constructingStore names data typeName t σ) =
      some (.next, constructingStore names data typeName (Fields.ensureMap t p) σ) := by
  have hThis : eval fuel call p.onThis (constructingStore names data typeName t σ) =
      some (p.value scope t, constructingStore names data typeName t σ) :=
    eval_onThis hAccess hp rfl
  rw [Instance.ensureMap, Fields.ensureMap]
  cases hStored : t p.number with
  | some v =>
      rw [Property.value_of_some hStored] at hThis
      rw [exec_guarded (eval_not hThis (hThere v hStored)) rfl]
      rfl
  | none =>
      have hValue : p.value scope t = .undefined := by
        obtain ⟨key, value, hContent⟩ := Property.isMap_iff.1 hIsMap
        rw [Property.value_of_none hStored, Property.default, hContent]
      rw [hValue] at hThis
      have hNew : eval fuel call (.construct (.ident "Map") [])
          (constructingStore names data typeName t σ) =
            some (.map [], constructingStore names data typeName t σ) :=
        eval_newMap ⟨rfl, hMap⟩
      have hAssign := eval_assignThis hAccess hp hNew rfl
      rw [stored_single (oneof_eq_none hPlan hp legal (Or.inr hIsMap))] at hAssign
      rw [exec_guarded (eval_not hThis rfl) rfl]
      exact inBlock_run_same (execAll_expr hAssign) rfl

theorem ensureMaps_run (hPlan : scope.plan m = .ok plan) (legal : m.Legal scope)
    (hAccess : Accesses scope plan typeName call)
    (hMaps : plan.MakesMaps names) :
    ∀ {ps : List Property} {t : Fields}, (∀ p ∈ ps, p ∈ plan.properties ∧ p.isMap) →
      (∀ p ∈ ps, ∀ v, t p.number = some v → v.truth = some true) →
      execAll fuel call (ps.map Instance.ensureMap) (constructingStore names data typeName t σ) =
        some (.next, constructingStore names data typeName (ps.foldl Fields.ensureMap t) σ)
  | [], _, _, _ => by
      rw [List.map_nil, execAll]
      rfl
  | p :: ps, t, hMem, hThere => by
      obtain ⟨⟨hp, hIsMap⟩, hRest⟩ := List.forall_mem_cons.1 hMem
      obtain ⟨hThereFirst, hThereRest⟩ := List.forall_mem_cons.1 hThere
      rw [List.map_cons, List.foldl_cons, execAll_cons (ensureMap_run hPlan legal hAccess
        (hMaps p hp hIsMap "Map" (by decide)) hp hIsMap hThereFirst)]
      refine ensureMaps_run hPlan legal hAccess hMaps hRest fun q hq v hStored => ?_
      have hEnsured := foldl_ensureMap_number q.number [p] t
      rw [List.foldl_cons, List.foldl_nil, hStored] at hEnsured
      split at hEnsured
      · obtain rfl := Option.some.inj hEnsured
        rfl
      · exact hThereRest q hq v hEnsured.symm

/-- The body of a constructor: the lists are set up, the argument is copied, and then the maps that
are not there are made. -/
theorem constructorBody_run (hPlan : scope.plan m = .ok plan) (legal : m.Legal scope)
    (hRuntime : names.runtime = scope.runtime) (hArray : names.reach ["Array"] = .global)
    (hAccess : Accesses scope plan typeName call)
    (hMaps : plan.MakesMaps names)
    (hData : globalCall "Array" "isArray" [data] = some (.bool false)) {copied : Fields}
    (hCopy : exec fuel call (.guarded Instance.isRecord (plan.properties.map Instance.copy))
        (constructingStore names data typeName plan.lists σ) =
      some (.next, constructingStore names data typeName copied σ))
    (hThere : ∀ p ∈ plan.properties, p.isMap → ∀ v, copied p.number = some v →
      v.truth = some true) :
    execAll fuel call
        (.expr (.call .superRef []) :: .expr (Instance.setUp scope plan)
          :: .guarded Instance.isRecord (plan.properties.map Instance.copy)
          :: (plan.properties.filter (·.isMap)).map Instance.ensureMap)
        (constructingStore names data typeName t σ) =
      some (.next, constructingStore names data typeName
        ((plan.properties.filter (·.isMap)).foldl Fields.ensureMap copied) σ) := by
  have hSuper : eval fuel call (.call .superRef []) (constructingStore names data typeName t σ) =
      some (.undefined, constructingStore names data typeName t σ) := rfl
  rw [execAll_cons (exec_expr hSuper), execAll_cons (exec_expr (eval_setUp hArray hRuntime hData)),
    execAll_cons hCopy]
  refine ensureMaps_run hPlan legal hAccess hMaps (fun p hp => List.mem_filter.1 hp) fun p hp => ?_
  exact hThere p (List.mem_filter.1 hp).1 (List.mem_filter.1 hp).2

/-- A class constructs what the body of its constructor leaves behind. -/
theorem invoke_construct {P : Program} {n : Nat} (hClass : ClassOf P typeName scope m plan)
    (hArray : P.reach typeName ["Array"] = .global)
    (hAccess : Accesses scope plan typeName (P.invoke n)) {arguments : List Value}
    (hArguments : (arguments = [] ∧ data = .undefined) ∨ arguments = [data])
    (hData : globalCall "Array" "isArray" [data] = some (.bool false)) {copied : Fields}
    (hCopy : exec n (P.invoke n) (.guarded Instance.isRecord (plan.properties.map Instance.copy))
        (constructingStore (namesIn P typeName scope) data typeName plan.lists σ) =
      some (.next, constructingStore (namesIn P typeName scope) data typeName copied σ))
    (hThere : ∀ p ∈ plan.properties, p.isMap → ∀ v, copied p.number = some v →
      v.truth = some true) :
    P.invoke (n + 1) (.construct typeName arguments) σ =
      some (.instance typeName
        ((plan.properties.filter (·.isMap)).foldl Fields.ensureMap copied), σ) := by
  have hBody := @constructorBody_run scope m plan typeName n (P.invoke n) (fun _ => none) σ
    (namesIn P typeName scope) data hClass.planned hClass.legal rfl hArray hAccess
    (makesMaps hClass) hData copied hCopy hThere
  simp only [constructingStore] at hBody
  rcases hArguments with ⟨rfl, rfl⟩ | rfl <;>
    simp [Program.invoke, Program.answer, names?_eq hClass, members?_eq hClass,
      constructorBody?_members, constructorBody?, Instance.constructor, runBody, inFrame,
      bindParams, bindTo, declare, Param.optionalTyped, bodyValue, Store.withLocals, hBody]

/-- **A new instance has empty lists and maps, and nothing else.** -/
theorem construct_run {P : Program} {n : Nat} (hClass : ClassOf P typeName scope m plan)
    (hArray : P.reach typeName ["Array"] = .global)
    (hAccess : Accesses scope plan typeName (P.invoke n)) :
    P.invoke (n + 1) (.construct typeName []) σ = some (.instance typeName plan.fresh, σ) := by
  have distinct := hClass.legal.numbers
  have hThere : ∀ p ∈ plan.properties, p.isMap → ∀ v, plan.lists p.number = some v →
      v.truth = some true := by
    intro p hp hMap v hStored
    rw [lists_number hClass.planned distinct hp, isList_of_isMap hClass.planned hp hMap] at hStored
    cases hStored
  rw [invoke_construct hClass hArray hAccess (Or.inl ⟨rfl, rfl⟩) rfl (copy_undefined_run hArray)
    hThere, foldl_ensureMap_lists hClass.planned distinct]

end Construction

end Protoscribe

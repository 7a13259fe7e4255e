import Protoscribe.Proofs.Evaluation.Steps
import Protoscribe.Proofs.Message.Properties

set_option autoImplicit false

/-! # What the accessors of a class do

A getter gives the value of the field, or the declared default (`getter_run`), when the class or the
enum that it names is there (`Property.resolves`). A setter does to the
fields of an instance what `Plan.stored` says (`setter_run`): the value goes into the field of the
property, and where the property belongs to a oneof the other members are cleared
(`stored_number`). The getter of a oneof gives the entry of its table for the populated
number (`caseGetter_run`).
-/

namespace Protoscribe

open TypeScript Evaluation

variable {scope : Scope} {plan : Plan} {fuel : Nat} {call : Invocation → M Value} {names : Names}
  {σ : Store} {typeName : String}

/-! ## Getters -/

theorem path?_foldl_member (names : List String) (e : Expr) :
    path? (names.foldl Expr.member e) = (path? e).map (· ++ names) := by
  induction names generalizing e with
  | nil => simp
  | cons name names ih =>
      rw [List.foldl_cons, ih, path?, Option.map_map]
      congr 1
      funext path
      simp

@[simp] theorem path?_memberChain (path : String) :
    path? (memberChain path) = some (Text.segments '.' path) := by
  rw [memberChain]
  cases hParts : Text.segments '.' path with
  | nil => exact absurd hParts (Text.segments_ne_nil _ _)
  | cons first others => simp [path?_foldl_member, path?]

/-- The value of a declared default. -/
def constantValue : Expr → Value
  | .string text => .string text
  | .bool value => .bool value
  | .number text => .ofNumber text
  | e => .symbol ((path? e).getD [])

/-- The value that a getter gives where the field is not populated. -/
def Property.default (scope : Scope) (p : Property) : Value :=
  match p.content with
  | .scalar .. =>
    match Access.declaredDefault? scope p.slot.descriptor with
    | some e => constantValue e
    | none => .undefined
  | _ => .undefined

/-- The value that the getter of a property gives. -/
def Property.value (scope : Scope) (p : Property) (s : Fields) : Value :=
  (s p.number).getD (p.default scope)

theorem Property.value_of_some {p : Property} {s : Fields} {v : Value} (h : s p.number = some v) :
    p.value scope s = v := by
  rw [Property.value, h, Option.getD_some]

theorem Property.value_of_none {p : Property} {s : Fields} (h : s p.number = none) :
    p.value scope s = p.default scope := by
  rw [Property.value, h, Option.getD_none]

/-- What a getter names: the class of a message, or a member of an enum. -/
def Property.named? (scope : Scope) (p : Property) : Option Expr :=
  match p.content with
  | .message other .. => some (scope.valueRef other)
  | .map .. => none
  | .scalar .. => Access.declaredDefault? scope p.slot.descriptor

/-- Whether what the getter of a property names is there. -/
def Property.resolves (scope : Scope) (names : Names) (p : Property) : Bool :=
  ((p.named? scope).bind path?).all names.hasValue

theorem hasValue_of_resolves {p : Property} {e : Expr} {path : List String}
    (h : p.resolves scope names) (hNamed : p.named? scope = some e) (hPath : path? e = some path) :
    names.hasValue path := by
  simpa [Property.resolves, hNamed, hPath] using h

/-- A name of the module that is a constant. -/
theorem eval_named {e : Expr} {path : List String} (hPath : path? e = some path)
    (hLocals : σ.frame.locals = []) (hValue : σ.frame.names.hasValue path) :
    eval fuel call e σ = some (.symbol path, σ) := by
  obtain ⟨first, rest, rfl⟩ := List.exists_cons_of_ne_nil (path?_ne_nil hPath)
  exact eval_path (frame_path?_of_free hPath (by rw [hLocals]; rfl)) hValue

/-- A declared default is a constant. -/
theorem eval_declaredDefault {f : FieldDescriptor} {e : Expr}
    (h : Access.declaredDefault? scope f = some e) (hLocals : σ.frame.locals = [])
    (hNamed : ∀ path, path? e = some path → σ.frame.names.hasValue path) :
    eval fuel call e σ = some (constantValue e, σ) := by
  rw [Access.declaredDefault?] at h
  split at h
  · cases h
  · split at h
    · -- a member of an enum
      obtain rfl := Option.some.inj h
      have hPath : path? (.member (scope.valueRef f.typeName) f.defaultValue) =
          some (Text.segments '.' (scope.path f.typeName) ++ [f.defaultValue]) := by
        rw [path?, Scope.valueRef, path?_memberChain]
        rfl
      rw [eval_named hPath hLocals (hNamed _ hPath), constantValue, hPath]
      · rfl
      all_goals
        intro
        simp
    all_goals first
      | cases h
        rfl
      | cases h

/-- The state in which the body of a getter runs. -/
def getterStore (names : Names) (object : Value) (σ : Store) : Store :=
  { σ with frame := ⟨object, names, []⟩ }

theorem eval_stored (hRuntime : names.runtime = scope.runtime) {p : Property}
    (hResolves : p.resolves scope names) (s : Fields) :
    eval fuel call (Access.stored scope p) (getterStore names (.instance typeName s) σ) =
      some (p.value scope s, getterStore names (.instance typeName s) σ) := by
  have hArgs : ∀ τ, values (evalArgs fuel call [.int p.number]) τ = some ([.int p.number], τ) :=
    fun τ => values_cons (eval_int _) values_nil
  rw [Access.stored, Property.value, Property.default]
  cases hContent : p.content with
  | message other repeated write =>
      have hNamed : p.named? scope = some (scope.valueRef other) := by
        rw [Property.named?, hContent]
      have hClass := @eval_named fuel call (getterStore names (.instance typeName s) σ) _ _
        (path?_memberChain _) rfl (hasValue_of_resolves hResolves hNamed (path?_memberChain _))
      cases repeated <;>
        exact eval_runtimeCall_this hRuntime rfl rfl (values_cons hClass (hArgs _)) rfl
  | map key content =>
      rw [eval]
      exact eval_runtimeCall_this hRuntime rfl rfl (hArgs _) rfl
  | scalar repeated packed write read =>
      have hNamed : p.named? scope = Access.declaredDefault? scope p.slot.descriptor := by
        rw [Property.named?, hContent]
      cases hDefault : Access.declaredDefault? scope p.slot.descriptor with
      | none => exact eval_runtimeCall_this hRuntime rfl rfl (hArgs _) rfl
      | some e =>
          have hConstant := @eval_declaredDefault scope fuel call
            (getterStore names (.instance typeName s) σ) _ _ hDefault rfl
            fun path => hasValue_of_resolves hResolves (hNamed.trans hDefault)
          exact eval_runtimeCall_this hRuntime rfl rfl
            (values_cons (eval_int _) (values_cons hConstant values_nil)) rfl

/-- **A getter gives the value of the field, or the declared default.** -/
theorem getter_run (hRuntime : names.runtime = scope.runtime) {p : Property}
    (hResolves : p.resolves scope names) (s : Fields) :
    getMember fuel call names (Access.getter scope p) (.instance typeName s) σ =
      some (p.value scope s, σ) := by
  have hStored : eval fuel call (Access.stored scope p)
      (getterStore names (.instance typeName s) σ) =
        some (p.value scope s, getterStore names (.instance typeName s) σ) :=
    eval_stored hRuntime hResolves s
  rw [getterStore] at hStored
  simp [getMember, Access.getter, getterBody?, runGetter, runBody, inFrame, bindParams, bodyValue,
    execAll, exec, Stmt.give, eval, hStored]

/-! ## Setters -/

/-- The storage after a property was set. -/
def Plan.stored (plan : Plan) (p : Property) (value : Value) (s : Fields) : Fields :=
  match plan.numbersBeside? p with
  | some numbers => (s.clear numbers).put p.number value
  | none => s.put p.number value

/-- The state in which the body of a setter runs. -/
def setterStore (names : Names) (object value : Value) (σ : Store) : Store :=
  { σ with frame := ⟨object, names, [("value", some value)]⟩ }

theorem eval_store (hRuntime : names.runtime = scope.runtime) (p : Property) (value : Value)
    (s : Fields) :
    eval fuel call (Access.store scope plan p)
        (setterStore names (.instance typeName s) value σ) =
      some (.undefined,
        setterStore names (.instance typeName (plan.stored p value s)) value σ) := by
  rw [Access.store, Plan.stored]
  have hValue : ∀ τ, eval fuel call Access.value (setterStore names τ value σ) =
      some (value, setterStore names τ value σ) := by
    intro τ
    simp [Access.value, eval, nameValue, setterStore]
  cases plan.numbersBeside? p with
  | some numbers =>
      have hArgs : ∀ τ, values (evalArgs fuel call [.int p.number, .ints numbers, Access.value])
          (setterStore names τ value σ) = some ([.int p.number, .list (numbers.map .int), value],
            setterStore names τ value σ) := fun τ =>
        values_cons (eval_int _) (values_cons (eval_ints _) (values_cons (hValue τ) values_nil))
      have hResult : Runtime.setOneofField s [.int p.number, .list (numbers.map .int), value] =
          some ((s.clear numbers).put p.number value, .undefined) := by
        simp [Runtime.setOneofField, Value.int]
      -- messages and scalars differ in the name of the routine only
      cases p.content <;> exact eval_runtimeCall_this hRuntime rfl rfl (hArgs _) hResult
  | none =>
      have hArgs : ∀ τ, values (evalArgs fuel call [.int p.number, Access.value])
          (setterStore names τ value σ) =
            some ([.int p.number, value], setterStore names τ value σ) := fun τ =>
        values_cons (eval_int _) (values_cons (hValue τ) values_nil)
      cases p.content with
      | map key content => exact eval_runtimeCall_this hRuntime rfl rfl (hArgs _) rfl
      | message other repeated write =>
          cases repeated <;> exact eval_runtimeCall_this hRuntime rfl rfl (hArgs _) rfl
      | scalar repeated packed write read =>
          exact eval_runtimeCall_this hRuntime rfl rfl (hArgs _) rfl

/-- **A setter does to the storage what the plan says.** -/
theorem setter_run (hRuntime : names.runtime = scope.runtime) (p : Property) (value : Value)
    (s : Fields) :
    setMember fuel call names (Access.setter scope plan p) (.instance typeName s) value σ =
      some (.instance typeName (plan.stored p value s), σ) := by
  have hStore : eval fuel call (Access.store scope plan p)
      (setterStore names (.instance typeName s) value σ) =
        some (.undefined,
          setterStore names (.instance typeName (plan.stored p value s)) value σ) :=
    eval_store hRuntime p value s
  rw [setterStore, setterStore] at hStore
  simp [setMember, Access.setter, setterBody?, runSetter, runBody, inFrame, bindParams, bindTo,
    declare, Param.typed, bodyValue, execAll, exec, Store.withLocals, hStore]

/-! ## Fields after a setter -/

theorem stored_single {p : Property} (h : p.slot.oneof = none) (value : Value) (s : Fields) :
    plan.stored p value s = s.put p.number value := by
  rw [Plan.stored, numbersBeside?_none h]

section Stored

variable {m : MessageDescriptor} (hPlan : scope.plan m = .ok plan) (distinct : m.DistinctNumbers)
  (inRange : m.OneofsInRange)

include hPlan distinct inRange

/-- What a setter leaves in a field: its value in its own field, nothing in the other members of
its oneof, and everything else as it was. -/
theorem stored_number {p q : Property} (hp : p ∈ plan.properties) (hq : q ∈ plan.properties)
    (value : Value) (s : Fields) :
    plan.stored p value s q.number =
      if q.number = p.number then value.populated
      else if p.slot.oneof ≠ none ∧ q.slot.oneof = p.slot.oneof then none
      else s q.number := by
  rw [Plan.stored]
  cases hOneof : p.slot.oneof with
  | none => simp [numbersBeside?_none hOneof, Fields.put, Function.update_apply]
  | some index =>
      have hMember : q.number ∈ (plan.group index).map Property.number ↔
          q.slot.oneof = some index := by
        constructor
        · intro h
          obtain ⟨r, hr, hSame⟩ := List.mem_map.1 h
          obtain ⟨hrMem, hrOneof⟩ := mem_group.1 hr
          rwa [← eq_of_number_eq hPlan distinct hrMem hq hSame]
        · intro h
          exact List.mem_map.2 ⟨q, mem_group.2 ⟨hq, h⟩, rfl⟩
      rw [numbersBeside?_eq hOneof (oneof_lt hPlan inRange hp hOneof)]
      simp only [Fields.put, Function.update_apply, Fields.clear, hMember, ne_eq, reduceCtorEq,
        not_false_eq_true, true_and]

/-- Setting a property outside a oneof changes no member of the oneof. -/
theorem stored_outside {p q : Property} (hp : p ∈ plan.properties) {index : Nat}
    (hOutside : p.slot.oneof ≠ some index) (hq : q ∈ plan.group index) (value : Value)
    (s : Fields) : plan.stored p value s q.number = s q.number := by
  obtain ⟨hqMem, hqOneof⟩ := mem_group.1 hq
  have hDifferent : q.number ≠ p.number := by
    intro hNumber
    rw [eq_of_number_eq hPlan distinct hqMem hp hNumber] at hqOneof
    exact hOutside hqOneof
  have hElsewhere : ¬ (p.slot.oneof ≠ none ∧ q.slot.oneof = p.slot.oneof) := by
    rintro ⟨-, h⟩
    exact hOutside (h.symm.trans hqOneof)
  rw [stored_number hPlan distinct inRange hp hqMem, if_neg hDifferent, if_neg hElsewhere]

end Stored

/-! ## The getter of a oneof -/

/-- The properties of the table of a oneof. -/
def caseEntries (members : List Property) : List (String × Value) :=
  ("0", .string "none") :: members.map fun p => (toString p.number, .string p.name)

theorem eval_caseTable (members : List Property) :
    eval fuel call (Access.caseTable members) σ = some (.record (caseEntries members), σ) := by
  have hMembers : ∀ ps : List Property, evalProperties fuel call
      (ps.map fun p => (.number p.number, .string p.name)) σ =
      some (ps.map fun p => (toString p.number, Value.string p.name), σ) := by
    intro ps
    induction ps with
    | nil => simp [evalProperties]
    | cons p ps ih => simp [evalProperties, eval, ih, propertyName]
  have hZero : toString (0 : Int) = "0" := rfl
  simp only [Access.caseTable, eval, evalProperties, propertyName, hZero, bind_run,
    pure_run, hMembers, Option.bind_some, caseEntries]

theorem lookup_caseEntries {members : List Property} (number : Int) (h : number ≠ 0) :
    (caseEntries members).lookup (toString number) =
      (members.find? (·.number = number)).map fun p => .string p.name := by
  have hZero : (toString number == "0") = false := by
    rw [beq_eq_false_iff_ne]
    exact fun hSame => h (Int.repr_inj.1 hSame)
  rw [caseEntries, List.lookup_cons, hZero]
  induction members with
  | nil => rfl
  | cons p members ih =>
      rw [List.map_cons, List.lookup_cons, List.find?_cons]
      by_cases hSame : p.number = number
      · simp [hSame]
      · have hText : (toString number == toString p.number) = false := by
          rw [beq_eq_false_iff_ne]
          exact fun hText => hSame (Int.repr_inj.1 hText).symm
        simp only [hText, hSame, decide_false]
        exact ih

/-- The getter of a oneof gives the entry of the table for the populated number. -/
theorem caseGetter_run (hRuntime : names.runtime = scope.runtime) (index : Nat) (name : String)
    {s : Fields} {result : Value}
    (h : (caseEntries (plan.group index)).lookup
      (toString (s.caseOf ((plan.group index).map Property.number))) = some result) :
    getMember fuel call names (Access.caseGetter scope plan index name) (.instance typeName s) σ =
      some (result, σ) := by
  have hCase : ∀ τ : Store, τ.frame.names = names → τ.frame.self = .instance typeName s →
      eval fuel call (scope.runtimeCall "computeOneofCase"
          [.thisRef, .ints ((plan.group index).map Property.number)]) τ =
        some (.int (s.caseOf ((plan.group index).map Property.number)),
          τ.withSelf (.instance typeName s)) := by
    intro τ hNames hSelf
    have hArgs : values (evalArgs fuel call [.ints ((plan.group index).map Property.number)]) τ =
        some ([.list (((plan.group index).map Property.number).map .int)], τ) :=
      values_cons (eval_ints _) values_nil
    refine eval_runtimeCall_this (by rw [hNames, hRuntime]) hSelf rfl hArgs ?_
    rw [Runtime.computeOneofCase, intsOf_ints]
    rfl
  have hElement : ∀ τ : Store, elementValue (.record (caseEntries (plan.group index)))
      (.int (s.caseOf ((plan.group index).map Property.number))) τ = some (result, τ) := by
    intro τ
    simp only [elementValue, Value.int, Scalar.keyText, bind_run, lift_some, Option.bind_some,
      propertyOf_some h]
  let opened : Store := { σ with frame := ⟨.instance typeName s, names, []⟩ }
  have hTable : exec fuel call (.const (.name "cases")
      (some (Access.caseTableType (plan.group index))) (Access.caseTable (plan.group index)))
      opened = some (.next, opened.withLocals
        [("cases", some (.record (caseEntries (plan.group index))))]) :=
    exec_constant (τ := opened) (eval_caseTable _) rfl
  have hGive : execAll fuel call [.give (.index (.ident "cases")
      (scope.runtimeCall "computeOneofCase"
        [.thisRef, .ints ((plan.group index).map Property.number)]))]
      (opened.withLocals [("cases", some (.record (caseEntries (plan.group index))))]) =
        some (.give result, opened.withLocals
          [("cases", some (.record (caseEntries (plan.group index))))]) := by
    refine execAll_give ?_
    rw [eval, bind_run, eval_variable rfl, Option.bind_some, bind_run, hCase _ rfl rfl]
    exact hElement _
  have hBody := (execAll_cons hTable _).trans hGive
  simp only [getMember, Access.caseGetter, getterBody?, runGetter, runBody, inFrame, bindParams,
    bodyValue, bind_run, get_run, modify_run, pure_run, Option.bind_some]
  rw [hBody]
  rfl

end Protoscribe

import Std.Data.String.ToInt
import Protoscribe.Proofs.Evaluation.Program

set_option autoImplicit false

/-! # Running the usual pieces

The pieces of which the emitted members are made: numbers, lists of numbers, and calls. A call of
the runtime on the object in a holder does to the object what the function does to the storage
(`messageCall_run`). Any other call goes where its path leads from the frame that it runs in: to a
class (`eval_static`, `eval_new`), to what the language provides (`eval_global`), or to a value
(`eval_method`).
-/

namespace Protoscribe.Evaluation

open TypeScript

variable {fuel : Nat} {call : Invocation → M Value} {σ τ : Store}

/-! ## Numbers -/

@[simp] theorem eval_int (n : Int) : eval fuel call (.int n) σ = some (.int n, σ) := by
  simp [Expr.int, eval, Value.ofNumber]

theorem values_map {α : Type} {e : α → Expr} {v : α → Value} {as : List α}
    (h : ∀ a ∈ as, eval fuel call (e a) σ = some (v a, σ)) :
    values (evalArgs fuel call (as.map e)) σ = some (as.map v, σ) := by
  induction as with
  | nil => simp [evalArgs, values]
  | cons a as ih =>
      obtain ⟨hFirst, hRest⟩ := List.forall_mem_cons.1 h
      simp [evalArgs, values, hFirst, ih hRest]

theorem values_ints (ns : List Int) :
    values (evalArgs fuel call (ns.map Expr.int)) σ = some (ns.map Value.int, σ) :=
  values_map fun n _ => eval_int n

@[simp] theorem eval_ints (ns : List Int) :
    eval fuel call (.ints ns) σ = some (.list (ns.map Value.int), σ) := by
  simp [Expr.ints, eval, values_ints]

@[simp] theorem intsOf_ints (ns : List Int) : intsOf (.list (ns.map Value.int)) = some ns := by
  induction ns with
  | nil => rfl
  | cons n ns ih =>
      simp only [intsOf] at ih ⊢
      simp [Value.int, ih]

/-! ## Calls of the runtime -/

theorem eval_runtimeCall {scope : Scope} (hRuntime : σ.frame.names.runtime = scope.runtime)
    (name : String) (args : List Expr) :
    eval fuel call (scope.runtimeCall name args) σ =
      messageCall name (evalArgs fuel call args) σ := by
  simp [Scope.runtimeCall, Scope.runtimeMessage, Expr.method, eval, memberCall, Frame.runtime?,
    path?, hRuntime]

theorem messageCall_run {ρ : Store} {name : String} {function : Function} {target : Arg}
    {args : List Arg} {holder : Holder} {vs : List Value} {typeName : String} {s t : Fields}
    {result : Value} (hFunction : Runtime.functions.lookup name = some function)
    (hHolder : holder? target.expr = some holder)
    (hArgs : values args σ = some (vs, ρ))
    (hRead : holder.read ρ = some (.instance typeName s, ρ))
    (hResult : function s vs = some (t, result))
    (hWrite : holder.write (.instance typeName t) ρ = some (⟨⟩, τ)) :
    messageCall name (target :: args) σ = some (result, τ) := by
  simp [messageCall, hFunction, hHolder, hArgs, hRead, hResult, hWrite]

@[simp] theorem read_self : Holder.self.read σ = some (σ.frame.self, σ) := rfl

@[simp] theorem write_self (value : Value) :
    Holder.self.write value σ = some (⟨⟩, σ.withSelf value) := rfl

/-- A call of the runtime on the object that a member runs on. -/
theorem eval_runtimeCall_this {scope : Scope} {name : String} {args : List Expr}
    {function : Function} {vs : List Value} {typeName : String} {s t : Fields} {result : Value}
    (hRuntime : σ.frame.names.runtime = scope.runtime)
    (hSelf : σ.frame.self = .instance typeName s)
    (hFunction : Runtime.functions.lookup name = some function)
    (hArgs : values (evalArgs fuel call args) σ = some (vs, σ))
    (hResult : function s vs = some (t, result)) :
    eval fuel call (scope.runtimeCall name (.thisRef :: args)) σ =
      some (result, σ.withSelf (.instance typeName t)) := by
  rw [eval_runtimeCall hRuntime, evalArgs]
  exact messageCall_run hFunction rfl hArgs (by rw [read_self, hSelf]) hResult (write_self _)

/-! ## Paths -/

theorem path?_ne_nil {e : Expr} {path : List String} (h : path? e = some path) : path ≠ [] := by
  cases e with
  | ident name =>
      obtain rfl := Option.some.inj h
      simp
  | member target name =>
      obtain ⟨outer, -, rfl⟩ := Option.map_eq_some_iff.1 h
      simp
  | _ => cases h

theorem frame_path?_of_none {frame : Frame} {e : Expr} (h : path? e = none) :
    frame.path? e = none := by
  rw [Frame.path?, h]

theorem frame_runtime?_of_none {frame : Frame} {e : Expr} (h : path? e = none) :
    frame.runtime? e = none := by
  rw [Frame.runtime?, h]

theorem frame_path?_of_hidden {frame : Frame} {e : Expr} {first : String} {rest : List String}
    (h : path? e = some (first :: rest)) (hHidden : (frame.locals.lookup first).isSome) :
    frame.path? e = none := by
  simp only [Frame.path?, h]
  exact if_neg (by simpa [Option.isNone_iff_eq_none, Option.isSome_iff_ne_none] using hHidden)

theorem frame_path?_of_free {frame : Frame} {e : Expr} {first : String} {rest : List String}
    (h : path? e = some (first :: rest)) (hFree : frame.locals.lookup first = none) :
    frame.path? e = some (first :: rest) := by
  simp [Frame.path?, h, hFree]

theorem frame_runtime?_of_ne {frame : Frame} {e : Expr} {first : String} {rest : List String}
    (h : path? e = some (first :: rest)) (hOther : first ≠ frame.names.runtime) :
    frame.runtime? e = none := by
  rw [Frame.runtime?, h]
  split
  · rename_i hPath
    exact if_neg fun hSame => hOther ((List.cons.inj (Option.some.inj hPath)).1.trans hSame)
  · rfl

/-- An expression that is neither a path of the module nor a member of the runtime. -/
structure IsLocal (frame : Frame) (e : Expr) : Prop where
  runtime : frame.runtime? e = none
  path : frame.path? e = none

theorem isLocal_of_none {frame : Frame} {e : Expr} (h : path? e = none) : IsLocal frame e :=
  ⟨frame_runtime?_of_none h, frame_path?_of_none h⟩

theorem isLocal_this (frame : Frame) (name : String) : IsLocal frame (.member .thisRef name) :=
  isLocal_of_none rfl

theorem isLocal_variable {frame : Frame} {name : String}
    (h : (frame.locals.lookup name).isSome) : IsLocal frame (.ident name) :=
  ⟨rfl, frame_path?_of_hidden rfl h⟩

/-- A name that means what the language provides. -/
structure IsGlobal (frame : Frame) (name : String) : Prop where
  free : frame.locals.lookup name = none
  meaning : frame.names.reach [name] = .global

theorem IsGlobal.path?_eq {frame : Frame} {name : String} (h : IsGlobal frame name) :
    frame.path? (.ident name) = some [name] := frame_path?_of_free rfl h.free

/-- An expression that is a path to the class of a type. -/
structure LeadsTo (frame : Frame) (e : Expr) (typeName : String) : Prop where
  runtime : frame.runtime? e = none
  path : ∃ path, frame.path? e = some path ∧ frame.names.reach path = .message typeName

/-! ## Expressions -/

/-- A path of the module that has a value. -/
theorem eval_path {e : Expr} {path : List String} (hPath : σ.frame.path? e = some path)
    (hValue : σ.frame.names.hasValue path) : eval fuel call e σ = some (.symbol path, σ) := by
  cases e with
  | ident name =>
      have hFree : σ.frame.locals.lookup name = none ∧ [name] = path := by
        simpa [Frame.path?, path?] using hPath
      obtain ⟨hFree, rfl⟩ := hFree
      have hUndefined : ¬ (name = "undefined" ∧ σ.frame.names.reach ["undefined"] = .global) := by
        rintro ⟨rfl, hGlobal⟩
        simp [Names.hasValue, hGlobal] at hValue
      simp [eval, nameValue, hFree, hUndefined, Names.value?, hValue]
  | member target name => simp [eval, hPath, Names.value?, hValue]
  | _ => cases hPath

/-- A class is a value. -/
theorem eval_class {e : Expr} {typeName : String} (hLeads : LeadsTo σ.frame e typeName) :
    ∃ path, eval fuel call e σ = some (.symbol path, σ) := by
  obtain ⟨path, hPath, hReach⟩ := hLeads.path
  exact ⟨path, eval_path hPath (by rw [Names.hasValue, hReach])⟩

/-- A member of a value that no name of the module begins. -/
theorem eval_member {e : Expr} {name : String} {v : Value} (hPath : path? e = none)
    (h : eval fuel call e σ = some (v, τ)) :
    eval fuel call (.member e name) σ = memberValue call v name τ := by
  have hMember : path? (.member e name) = none := by rw [path?, hPath, Option.map_none]
  simp [eval, frame_path?_of_none hMember, h]

/-- A member of a variable. -/
theorem eval_member_variable {holder name : String} {v : Value}
    (h : σ.frame.locals.lookup holder = some (some v)) :
    eval fuel call (.member (.ident holder) name) σ = memberValue call v name σ := by
  have hNames : path? (.member (.ident holder) name) = some [holder, name] := rfl
  have hPath : σ.frame.path? (.member (.ident holder) name) = none :=
    frame_path?_of_hidden hNames (by rw [h]; rfl)
  simp [eval, hPath, nameValue, h]

theorem eval_and {a b : Expr} {v : Value} {test : Bool} (h : eval fuel call a σ = some (v, τ))
    (hTest : v.truth = some test) :
    eval fuel call (.and a b) σ = if test then eval fuel call b τ else some (v, τ) := by
  cases test <;> simp [Expr.and, eval, h, hTest]

theorem eval_or {a b : Expr} {v : Value} {test : Bool} (h : eval fuel call a σ = some (v, τ))
    (hTest : v.truth = some test) :
    eval fuel call (.binary a "||" b) σ = if test then some (v, τ) else eval fuel call b τ := by
  cases test <;> simp [eval, h, hTest]

theorem eval_conditional {condition a b : Expr} {v : Value} {test : Bool}
    (h : eval fuel call condition σ = some (v, τ)) (hTest : v.truth = some test) :
    eval fuel call (.conditional condition a b) σ =
      if test then eval fuel call a τ else eval fuel call b τ := by
  cases test <;> simp [eval, h, hTest]

theorem eval_not {a : Expr} {v : Value} {test : Bool} (h : eval fuel call a σ = some (v, τ))
    (hTest : v.truth = some test) : eval fuel call (.not a) σ = some (.bool !test, τ) := by
  simp [Expr.not, eval, h, hTest]

theorem eval_typeOf {e : Expr} {v : Value} {text : String} (h : eval fuel call e σ = some (v, τ))
    (hType : v.typeOf = some text) : eval fuel call (.typeOf e) σ = some (.string text, τ) := by
  simp [eval, h, hType]

theorem eval_operate {ρ : Store} {a b : Expr} {operator : String} {v w result : Value}
    (hOperator : operator ∉ ["=", "&&", "||", "instanceof"])
    (ha : eval fuel call a σ = some (v, τ)) (hb : eval fuel call b τ = some (w, ρ))
    (h : operate operator v w = some result) :
    eval fuel call (.binary a operator b) σ = some (result, ρ) := by
  simp only [List.mem_cons, List.not_mem_nil, or_false, not_or] at hOperator
  simp [eval, hOperator, ha, hb, h]

/-- An assignment to a variable. -/
theorem eval_assign_variable {name : String} {e : Expr} {v : Value}
    {locals : List (String × Option Value)} (h : eval fuel call e σ = some (v, τ))
    (hLocals : afterAssignment name v τ.frame.locals = some locals) :
    eval fuel call (.assign (.ident name) e) σ = some (v, τ.withLocals locals) := by
  simp [Expr.assign, eval, h, assign, assignLocal, hLocals]

/-! ## Calls -/

/-- A call of a method of a value. -/
theorem eval_method {e : Expr} {name : String} {v : Value} (hLocal : IsLocal σ.frame e)
    (h : eval fuel call e σ = some (v, τ)) (args : List Expr) :
    eval fuel call (e.method name args) σ =
      methodCall call v name (evalArgs fuel call args) τ := by
  simp [Expr.method, eval, memberCall, hLocal.runtime, hLocal.path, h]

/-- A call of a static method of a class. -/
theorem eval_static {e : Expr} {typeName name : String} {args : List Expr} {vs : List Value}
    (hLeads : LeadsTo σ.frame e typeName)
    (hArgs : values (evalArgs fuel call args) σ = some (vs, τ)) :
    eval fuel call (e.method name args) σ = call (.static typeName name vs) τ := by
  obtain ⟨path, hPath, hReach⟩ := hLeads.path
  simp [Expr.method, eval, memberCall, hLeads.runtime, hPath, hReach, hArgs]

/-- A new instance of a class. -/
theorem eval_new {e : Expr} {typeName : String} {args : List Expr} {vs : List Value}
    (hLeads : LeadsTo σ.frame e typeName)
    (hArgs : values (evalArgs fuel call args) σ = some (vs, τ)) :
    eval fuel call (.construct e args) σ = call (.construct typeName vs) τ := by
  obtain ⟨path, hPath, hReach⟩ := hLeads.path
  simp [eval, newObject, hLeads.runtime, hPath, hReach, hArgs]

/-- A variable is no class, so nothing is constructed under its name. -/
theorem eval_new_variable {name : String} (h : (σ.frame.locals.lookup name).isSome)
    (args : List Expr) : eval fuel call (.construct (.ident name) args) σ = none := by
  have hLocal := isLocal_variable h
  simp [eval, newObject, hLocal.runtime, hLocal.path]

/-- A call of a function that the language provides. -/
theorem eval_global {owner name : String} {args : List Expr} {vs : List Value} {v : Value}
    (hGlobal : IsGlobal σ.frame owner)
    (hArgs : values (evalArgs fuel call args) σ = some (vs, τ))
    (hCall : globalCall owner name vs = some v) :
    eval fuel call (Expr.method (.ident owner) name args) σ = some (v, τ) := by
  have hRuntime : σ.frame.runtime? (.ident owner) = none := rfl
  simp [Expr.method, eval, memberCall, hRuntime, hGlobal.path?_eq, hGlobal.meaning, hArgs, hCall]

/-- A new map. -/
theorem eval_newMap (hMap : IsGlobal σ.frame "Map") :
    eval fuel call (.construct (.ident "Map") []) σ = some (.map [], σ) := by
  have hRuntime : σ.frame.runtime? (.ident "Map") = none := rfl
  simp [eval, newObject, hRuntime, hMap.path?_eq, hMap.meaning, evalArgs, values]

/-- A new map with the entries in a list of pairs. -/
theorem eval_newMapOf {e : Expr} {pairs : List Value} {v : Value} (hMap : IsGlobal σ.frame "Map")
    (h : eval fuel call e σ = some (.list pairs, τ)) (hEntries : mapOf pairs = some v) :
    eval fuel call (.construct (.ident "Map") [e]) σ = some (v, τ) := by
  have hRuntime : σ.frame.runtime? (.ident "Map") = none := rfl
  simp [eval, newObject, hRuntime, hMap.path?_eq, hMap.meaning, values_cons h values_nil, hEntries]

/-- A class of the runtime. -/
theorem frame_runtime? {frame : Frame} {runtime : String} (hRuntime : frame.names.runtime = runtime)
    (name : String) : frame.runtime? (.member (.ident runtime) name) = some name := by
  simp [Frame.runtime?, path?, hRuntime]

/-- A call of the runtime's class of maps. -/
theorem eval_mapMethod {e : Expr} {name : String} (hMap : σ.frame.runtime? e = some "Map")
    (args : List Expr) :
    eval fuel call (e.method name args) σ = mapCall call name (evalArgs fuel call args) σ := by
  simp [Expr.method, eval, memberCall, hMap]

/-! ## Blocks -/

theorem inBlock_run {α : Type} {body : M α} {a : α} (h : body σ = some (a, τ)) :
    inBlock body σ = some (a,
      τ.withLocals (τ.frame.locals.drop (τ.frame.locals.length - σ.frame.locals.length))) := by
  simp [inBlock, h]

/-- A block that declares no variables. -/
theorem inBlock_run_same {α : Type} {body : M α} {a : α} (h : body σ = some (a, τ))
    (hLength : τ.frame.locals.length = σ.frame.locals.length) :
    inBlock body σ = some (a, τ) := by
  rw [inBlock_run h, hLength, Nat.sub_self, List.drop_zero]
  rfl

/-- A block that declares some variables. -/
theorem inBlock_run_declared {α : Type} {body : M α} {a : α}
    (declared : List (String × Option Value))
    (h : body σ = some (a, τ.withLocals (declared ++ τ.frame.locals)))
    (hLength : τ.frame.locals.length = σ.frame.locals.length) :
    inBlock body σ = some (a, τ) := by
  have hDeclared : (declared ++ τ.frame.locals).length - σ.frame.locals.length =
      declared.length := by
    rw [List.length_append, hLength, Nat.add_sub_cancel]
  rw [inBlock_run h]
  simp only [Store.withLocals, hDeclared, List.drop_left]

/-- A function without parameters is its body. -/
theorem runArg_lambda {body : Expr} {a : Value} (h : eval fuel call body σ = some (a, τ))
    (hLength : τ.frame.locals.length = σ.frame.locals.length) (args : List Value) :
    runArg fuel call (.lambda [] body) args σ = some (a, τ) := by
  rw [Expr.lambda, runArg]
  exact inBlock_run_same h hLength

/-! ## Statements -/

/-- A constant, whose variable is there and has no value while the value is computed. -/
theorem exec_constant {name : String} {type : Option Ty} {e : Expr} {v : Value}
    (h : eval fuel call e (σ.withLocals ((name, none) :: σ.frame.locals)) =
      some (v, τ.withLocals ((name, none) :: τ.frame.locals)))
    (hLength : τ.frame.locals.length = σ.frame.locals.length) :
    exec fuel call (.const (.name name) type e) σ =
      some (.next, τ.withLocals ((name, some v) :: τ.frame.locals)) := by
  have hValue : inBlock (do reserve (.name name); eval fuel call e) σ = some (v, τ) :=
    inBlock_run_declared [(name, none)] h hLength
  rw [exec, bind_run, hValue]
  rfl

/-- A constant without a value: what its value is computed from fails. -/
theorem exec_constant_none {name : String} {type : Option Ty} {e : Expr}
    (h : eval fuel call e (σ.withLocals ((name, none) :: σ.frame.locals)) = none) :
    exec fuel call (.const (.name name) type e) σ = none := by
  have hValue : inBlock (do reserve (.name name); eval fuel call e) σ = none := by
    simp [inBlock, reserve, boundNames, h]
  rw [exec, bind_run, hValue]
  rfl

theorem execAll_give {e : Expr} {v : Value} (h : eval fuel call e σ = some (v, τ)) :
    execAll fuel call [.give e] σ = some (.give v, τ) := by
  rw [execAll, bind_run, Stmt.give, exec, bind_run, h]
  rfl

theorem execAll_expr {e : Expr} {v : Value} (h : eval fuel call e σ = some (v, τ)) :
    execAll fuel call [.expr e] σ = some (.next, τ) := by
  simp [execAll, exec, h]

theorem exec_guarded {condition : Expr} {body : List Stmt} {v : Value} {test : Bool}
    (h : eval fuel call condition σ = some (v, σ)) (hTest : v.truth = some test) :
    exec fuel call (.guarded condition body) σ =
      if test then inBlock (execAll fuel call body) σ else some (.next, σ) := by
  cases test <;> simp [Stmt.guarded, exec, h, hTest]

/-- A choice whose case is left. -/
theorem exec_select {subject : Expr} {cases : List (Expr × List Stmt)} {default : List Stmt}
    {v : Value} (hSubject : eval fuel call subject σ = some (v, σ))
    (h : execCases fuel call v (execAll fuel call default) cases σ = some (.leave, τ))
    (hLength : τ.frame.locals.length = σ.frame.locals.length) :
    exec fuel call (.select subject cases (some default)) σ = some (.next, τ) := by
  rw [exec, bind_run, hSubject, Option.bind_some]
  simp [inChoice, inBlock_run_same h hLength]

/-! ## Running members -/

/-- A static method of one parameter does not answer when its body fails. -/
theorem invoke_static_none {P : Program} {n : Nat} {typeName name param : String} {type : Ty}
    {names : Names} {body : List Stmt} (hNames : P.names? typeName = some names)
    (hMethod : (P.members? typeName).bind (method? · true name) = some ([.typed param type], body))
    (hBody : ∀ argument, execAll n (P.invoke n) body
      { σ with frame := ⟨.undefined, names, [(param, some argument)]⟩ } = none)
    (arguments : List Value) : P.invoke (n + 1) (.static typeName name arguments) σ = none := by
  rw [Program.invoke]
  cases hOverwrites : P.overwrites typeName name with
  | true => simp [Program.answer, hNames, Program.static?, hOverwrites]
  | false =>
      cases arguments <;>
        simp [Program.answer, hNames, Program.static?, hOverwrites, hMethod, runBody, inFrame,
          bindParams, bindTo, declare, Param.typed, bodyValue, Store.withLocals, hBody]

/-- The object that a setter of a class leaves behind. -/
def setMember (fuel : Nat) (call : Invocation → M Value) (names : Names) (member : Member)
    (object value : Value) : M Value :=
  match setterBody? member with
  | some (param, body) => runSetter fuel call names object param value body
  | none => failure

/-- What a getter of a class gives. -/
def getMember (fuel : Nat) (call : Invocation → M Value) (names : Names) (member : Member)
    (object : Value) : M Value :=
  match getterBody? member with
  | some body => runGetter fuel call names object body
  | none => failure

end Protoscribe.Evaluation

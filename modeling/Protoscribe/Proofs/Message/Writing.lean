import Protoscribe.Proofs.Message.Classes

set_option autoImplicit false

/-! # What is written for a property

`Carried` says of the value of a property which records carry it and which value is read back from
them; how nested messages are carried is a parameter. Main statement: `writeProperty_run`, the
statement that writes a property appends the records that carry its value when the property is to
be written (`Property.written`), and nothing otherwise.
-/

namespace Protoscribe

open TypeScript Evaluation

/-! ## Carried values -/

/-- How the messages of a type are carried: the instance, its records, and the instance that is
read back from them. -/
abbrev Nesting := String → Value → List Record → Value → Prop

/-- A value inside a list or a map, the records of it when it is a message, and the value that is
read back. -/
structure Part where
  value : Value
  records : List Record
  back : Value

/-- The record of the value of a map entry. -/
def MapSide.record (value : MapSide) (part : Part) : Record :=
  if value.descriptor.isMessage then (2, "Message", .buffer part.records)
  else (2, value.routine, part.value)

/-- A part is carried as the value of a map entry. -/
def MapSide.Carries (nested : Nesting) (value : MapSide) (part : Part) : Prop :=
  if value.descriptor.isMessage then
    nested value.descriptor.typeName part.value part.records part.back
  else part.value.isMissing = false ∧ part.back = part.value

/-- The record of a map entry. -/
def entryRecord (number : Int) (key value : MapSide) (entry : Scalar × Part) : Record :=
  (number, "Message",
    .buffer [(1, key.routine, .scalar entry.1), value.record entry.2])

/-- A value of a property, the records that carry it, and the value that is read back. -/
inductive Carried (nested : Nesting) (p : Property) : Value → List Record → Value → Prop
  | scalar {packed write read value} (content : p.content = .scalar false packed write read)
      (present : value.isMissing = false) :
      Carried nested p value [(p.number, write, value)] value
  | list {write read items} (content : p.content = .scalar true false write read) :
      Carried nested p (.list items) (items.map fun item => (p.number, read, item)) (.list items)
  | packed {write read items} (content : p.content = .scalar true true write read) :
      Carried nested p (.list items) (packedRecords p.number write items) (.list items)
  | message {typeName write value records back}
      (content : p.content = .message typeName false write)
      (carried : nested typeName value records back) :
      Carried nested p value [(p.number, "Message", .buffer records)] back
  | messages {typeName write} {parts : List Part}
      (content : p.content = .message typeName true write)
      (carried : ∀ part ∈ parts, nested typeName part.value part.records part.back) :
      Carried nested p (.list (parts.map Part.value))
        (parts.map fun part => (p.number, "Message", .buffer part.records))
        (.list (parts.map Part.back))
  | map {key value} {entries : List (Scalar × Part)} (content : p.content = .map key value)
      (keys : (entries.map Prod.fst).Nodup) (present : ∀ entry ∈ entries, entry.1 ≠ .null)
      (carried : ∀ entry ∈ entries, value.Carries nested entry.2) :
      Carried nested p (.map (entries.map fun entry => (entry.1, entry.2.value)))
        (entries.map (entryRecord p.number key value))
        (.map (entries.map fun entry => (entry.1, entry.2.back)))

/-! ## Nested messages -/

/-- An instance writes some records. -/
def Writes (call : Invocation → M Value) (v : Value) (records : List Record) : Prop :=
  (∃ typeName s, v = .instance typeName s) ∧
    ∀ σ, call (.method v "serialize" [.writer]) σ = some (.undefined, σ.appending records)

section Writing

variable {scope : Scope} {plan : Plan} {typeName : String} {fuel : Nat}
  {call : Invocation → M Value} {s : Fields} {σ τ : Store}

theorem eval_writer (h : σ.frame.locals.lookup "writer" = some (some .writer)) :
    eval fuel call Codec.writer σ = some (.writer, σ) := by
  simp [Codec.writer, eval, nameValue, h]

theorem eval_writeInto {e : Expr} {v : Value} {records : List Record} (hLocal : IsLocal σ.frame e)
    (hValue : eval fuel call e σ = some (v, σ))
    (hWriter : σ.frame.locals.lookup "writer" = some (some .writer))
    (hWrites : Writes call v records) :
    eval fuel call (Codec.writeInto e) σ = some (.undefined, σ.appending records) := by
  obtain ⟨⟨typeName, s, rfl⟩, hRun⟩ := hWrites
  rw [Codec.writeInto, eval_method hLocal hValue]
  simp [methodCall, evalArgs, values, eval_writer hWriter, hRun]

/-! ## Whether a property is written -/

/-- Whether a property is a single text. -/
def Property.isText (p : Property) : Bool :=
  p.slot.descriptor.type = .string && !p.slot.isList && !p.isMap

/-- Whether a property is written: a map always, a single text when it is not empty, and any other
property when it has a value. -/
def Property.written (scope : Scope) (p : Property) (s : Fields) : Bool :=
  p.isMap ||
    if p.isText then
      match p.value scope s with
      | .scalar (.string text) => decide (text ≠ "")
      | _ => false
    else !(p.value scope s).isUndefined

theorem written_eq {p : Property} (hMap : p.isMap = false) : p.written scope s =
    if p.isText then
      match p.value scope s with
      | .scalar (.string text) => decide (text ≠ "")
      | _ => false
    else !(p.value scope s).isUndefined := by
  rw [Property.written, hMap, Bool.false_or]

theorem written_map {p : Property} {key value : MapSide} (h : p.content = .map key value) :
    p.written scope s = true := by
  rw [Property.written, Property.isMap, h, Bool.true_or]

theorem isMap_eq_false {p : Property} (h : ∀ key value, p.content ≠ .map key value) :
    p.isMap = false := by
  refine Bool.eq_false_iff.2 fun hMap => ?_
  obtain ⟨key, value, hContent⟩ := Property.isMap_iff.1 hMap
  exact h key value hContent

/-- The state in which an instance writes its properties. -/
structure Serializing (typeName : String) (s : Fields) (σ : Store) : Prop where
  self : σ.frame.self = .instance typeName s
  writer : σ.frame.locals.lookup "writer" = some (some .writer)
  undefined : IsGlobal σ.frame "undefined"

theorem isWritten_run (hAccess : Accesses scope plan typeName call) {p : Property}
    (hp : p ∈ plan.properties) (hState : Serializing typeName s σ) (hMap : p.isMap = false)
    (hText : p.isText → p.value scope s = .undefined ∨ ∃ text, p.value scope s = .string text) :
    ∃ v, eval fuel call (Codec.isWritten p) σ = some (v, σ) ∧
      v.truth = some (p.written scope s) := by
  have hThis : eval fuel call p.onThis σ = some (p.value scope s, σ) :=
    eval_onThis hAccess hp hState.self
  have hKind : p.isText = (p.slot.descriptor.type = .string && !p.slot.isList : Bool) := by
    rw [Property.isText, hMap, Bool.not_false, Bool.and_true]
  rw [written_eq hMap, Codec.isWritten, ← hKind]
  by_cases hIsText : p.isText
  · rw [if_pos hIsText, if_pos hIsText]
    have hString : eval fuel call (.string "string") σ = some (.string "string", σ) := rfl
    have hTest {same : Bool} (type : String) (hType : (p.value scope s).typeOf = some type)
        (hSame : operate "===" (.string type) (.string "string") = some (.bool same)) :
        eval fuel call (.binary (.typeOf p.onThis) "===" (.string "string")) σ =
          some (.bool same, σ) :=
      eval_operate (by decide) (eval_typeOf hThis hType) hString hSame
    rcases hText hIsText with hValue | ⟨text, hValue⟩
    · rw [eval_and (hTest "undefined" (by rw [hValue]; rfl) rfl) rfl, hValue]
      exact ⟨_, rfl, rfl⟩
    · rw [eval_and (hTest "string" (by rw [hValue]; rfl) rfl) rfl, eval_member rfl hThis, hValue]
      refine ⟨.int (Value.units text), rfl, ?_⟩
      simp [Value.int, Value.truth, Value.string, Value.units_eq_zero]
  · rw [if_neg hIsText, if_neg hIsText]
    have hUndefined : eval fuel call .undefined σ = some (.undefined, σ) := by
      simp [Expr.undefined, eval, nameValue, hState.undefined.free, hState.undefined.meaning]
    refine ⟨.bool !(p.value scope s).isUndefined, ?_, rfl⟩
    refine eval_operate (by decide) hThis hUndefined ?_
    cases p.value scope s <;> rfl

/-! ## What is written -/

/-- A guarded call of the writer appends its records when the property is written. -/
theorem guarded_run {p : Property} {e : Expr} {v : Value} {records : List Record}
    (hTest : eval fuel call (Codec.isWritten p) σ = some (v, σ))
    (hTruth : v.truth = some (p.written scope s))
    (h : p.written scope s → eval fuel call e σ = some (.undefined, σ.appending records)) :
    exec fuel call (.guarded (Codec.isWritten p) [.expr e]) σ =
      some (.next, σ.appending (if p.written scope s then records else [])) := by
  rw [exec_guarded hTest hTruth]
  by_cases hWritten : p.written scope s
  · rw [if_pos hWritten, if_pos hWritten]
    exact inBlock_run_same (execAll_expr (h hWritten)) rfl
  · rw [if_neg hWritten, if_neg hWritten, Store.appending_nil]

/-- A callback that writes a message. -/
theorem runArg_writeInto {e : Expr} {v : Value} {records : List Record} (hLocal : IsLocal σ.frame e)
    (hValue : ∀ τ : Store, τ.frame = σ.frame → eval fuel call e τ = some (v, τ))
    (hWriter : σ.frame.locals.lookup "writer" = some (some .writer))
    (hWrites : Writes call v records)
    (args : List Value) :
    runArg fuel call (.lambda [] (Codec.writeInto e)) args { σ with output := [] } =
      some (.undefined, { σ with output := records }) :=
  runArg_lambda
    (eval_writeInto (σ := { σ with output := [] }) hLocal (hValue _ rfl) hWriter hWrites) rfl args

/-- The callback that writes an element of a list of messages. -/
theorem runArg_writeItem {v : Value} {records : List Record} {param : Ty}
    (hWriter : σ.frame.locals.lookup "writer" = some (some .writer))
    (hWrites : Writes call v records) :
    runArg fuel call (.lambda [.typed "item" param] (Codec.writeInto (.ident "item")))
        [v, .writer] { σ with output := [] } =
      some (.undefined, { σ with output := records }) := by
  have hBody : eval fuel call (Codec.writeInto (.ident "item"))
      ({ σ with output := [] }.withLocals (("item", some v) :: σ.frame.locals)) =
        some (.undefined,
          { σ with output := records }.withLocals ([("item", some v)] ++ σ.frame.locals)) :=
    eval_writeInto (isLocal_variable rfl) (eval_variable rfl) hWriter hWrites
  rw [Expr.lambda, runArg]
  refine inBlock_run_declared [("item", some v)] ?_ rfl
  simp only [bindParams, bindTo, Param.typed, declare, bind_run, modify_run, pure_run,
    Option.bind_some]
  exact hBody

/-! ## The writer -/

/-- The state in which an instance writes its properties, with the writer it was given. -/
def writingStore (names : Names) (self w : Value) (output : List Record) (σ : Store) : Store :=
  { σ with frame := ⟨self, names, [("writer", some .writer), ("w", some w)]⟩, output := output }

/-- The writer is the one that is given, or a new one. -/
theorem openWriter_run {names : Names} {self : Value} (hRuntime : names.runtime = scope.runtime)
    (given : Bool) :
    let w : Value := if given then .writer else .undefined
    exec fuel call (.constant "writer" (.binary (.ident "w") "||"
        (.construct (.member (.ident scope.runtime) "BinaryWriter") [])))
        { σ with frame := ⟨self, names, [("w", some w)]⟩ } =
      some (.next, writingStore names self w (if given then σ.output else []) σ) := by
  intro w
  let opening : Store := { σ with frame := ⟨self, names, [("w", some w)]⟩ }
  have hVariable : eval fuel call (.ident "w")
      (opening.withLocals [("writer", none), ("w", some w)]) =
        some (w, opening.withLocals [("writer", none), ("w", some w)]) := eval_variable rfl
  cases given with
  | true => exact exec_constant (τ := opening) ((eval_or hVariable rfl).trans rfl) rfl
  | false =>
      exact exec_constant (τ := { opening with output := [] })
        ((eval_or hVariable rfl).trans (eval_newWriter hRuntime)) rfl

/-- Without a writer, what the writer holds is returned. -/
theorem giveResult_run {names : Names} {self w : Value} {given : Bool} {output : List Record}
    (hGiven : w.truth = some given) :
    execAll fuel call
        [.guarded (.not (.ident "w")) [.give (Codec.writer.method "getResultBuffer" [])]]
        (writingStore names self w output σ) =
      some (if given then .next else .give (.buffer output),
        writingStore names self w output σ) := by
  have hResult : execAll fuel call [.give (Codec.writer.method "getResultBuffer" [])]
      (writingStore names self w output σ) =
        some (.give (.buffer output), writingStore names self w output σ) := by
    rw [execAll, bind_run, Stmt.give, exec, bind_run, eval_resultBuffer rfl]
    rfl
  rw [execAll, bind_run, exec_guarded (eval_not (eval_variable rfl) hGiven) rfl]
  cases given with
  | true => simp [execAll]
  | false => simp [inBlock_run_same hResult rfl]

/-! ## Maps -/

section Nested

variable {m : MessageDescriptor} {nested : Nesting}
  (hNested : ∀ {other v records back}, nested other v records back → Writes call v records)

include hNested

/-- What the value of a map entry is carried by is written by the class of the value. -/
theorem writeMapValue_run {value : MapSide} {part : Part}
    (hBase : IsBase value.routine)
    (hMessage : value.descriptor.isMessage → value.routine = "Message")
    (hWriter : σ.frame.locals.lookup "writer" = some (some .writer))
    (hValue : σ.frame.locals.lookup "value" = some (some part.value))
    (hCarries : value.Carries nested part) :
    eval fuel call (Codec.write value.routine (Codec.mapValueArguments value.descriptor)) σ =
      some (.undefined, σ.appending [value.record part]) := by
  rw [MapSide.Carries] at hCarries
  rw [MapSide.record, Codec.mapValueArguments]
  by_cases hIsMessage : value.descriptor.isMessage
  · rw [if_pos hIsMessage] at hCarries ⊢
    rw [if_pos hIsMessage, hMessage hIsMessage]
    have hWrites := hNested hCarries
    obtain ⟨typeName, s, hInstance⟩ := hWrites.1
    have hBody : runArg fuel call (.lambda [] (Codec.writeInto (.ident "value")))
        [part.value, .writer] { σ with output := [] } =
          some (.undefined, { σ with output := part.records }) :=
      runArg_writeInto (isLocal_variable (by rw [hValue]; rfl))
        (fun τ hFrame => eval_variable (by rw [hFrame, hValue])) hWriter hWrites _
    exact eval_write_message hWriter (eval_int _) (eval_variable hValue)
      (by rw [hInstance]; rfl) hBody
  · rw [if_neg hIsMessage] at hCarries ⊢
    rw [if_neg hIsMessage, List.append_nil]
    exact eval_write_value hWriter (eval_int _) (eval_variable hValue) hCarries.1
      hBase

/-- One entry of a map is written as one record. -/
theorem writeEntry_run {number : Int} {e : Expr} {map : Value}
    {key value : MapSide} {entry : Scalar × Part}
    (hWriter : σ.frame.locals.lookup "writer" = some (some .writer))
    (hMap : eval fuel call e σ = some (map, σ)) (hMapPresent : map.isMissing = false)
    (hKey : σ.frame.locals.lookup "key" = some (some (.scalar entry.1)))
    (hValue : σ.frame.locals.lookup "value" = some (some entry.2.value))
    (hKeyBase : IsBase key.routine) (hValueBase : IsBase value.routine)
    (hMessage : value.descriptor.isMessage → value.routine = "Message")
    (hPresent : entry.1 ≠ .null) (hCarries : value.Carries nested entry.2) :
    eval fuel call (Codec.write "Message" [.int number, e,
        .arrowBlock [] none
          [.expr (Codec.write key.routine [.int 1, .ident "key"]),
            .expr (Codec.write value.routine (Codec.mapValueArguments value.descriptor))]]) σ =
      some (.undefined, σ.appending [entryRecord number key value entry]) := by
  have hKeyPresent : (Value.scalar entry.1).isMissing = false := by
    cases hScalar : entry.1 <;> first | rfl | exact absurd hScalar hPresent
  have hFirst : eval fuel call (Codec.write key.routine [.int 1, .ident "key"])
      { σ with output := [] } =
        some (.undefined, { σ with output := [(1, key.routine, .scalar entry.1)] }) :=
    eval_write_value hWriter (eval_int 1) (eval_variable hKey) hKeyPresent hKeyBase
  have hSecond : eval fuel call
      (Codec.write value.routine (Codec.mapValueArguments value.descriptor))
      { σ with output := [(1, key.routine, .scalar entry.1)] } =
        some (.undefined,
          { σ with output := [(1, key.routine, .scalar entry.1), value.record entry.2] }) :=
    writeMapValue_run hNested hValueBase hMessage hWriter hValue hCarries
  have hBody : runArg fuel call
      (.arrowBlock [] none
        [.expr (Codec.write key.routine [.int 1, .ident "key"]),
          .expr (Codec.write value.routine (Codec.mapValueArguments value.descriptor))])
      [map, .writer] { σ with output := [] } =
        some (.undefined,
          { σ with output := [(1, key.routine, .scalar entry.1), value.record entry.2] }) := by
    rw [runArg]
    refine inBlock_run_same ?_ rfl
    simp only [bindParams, execAll, exec, bind_run, pure_run, Option.bind_some, hFirst, hSecond]
  exact eval_write_message hWriter (eval_int _) hMap hMapPresent hBody

theorem writeMap_run (hAccess : Accesses scope plan typeName call) {p : Property}
    (hp : p ∈ plan.properties) (hState : Serializing typeName s σ) {key value : MapSide}
    {entries : List (Scalar × Part)} (hKeyBase : IsBase key.routine)
    (hValueBase : IsBase value.routine)
    (hMessage : value.descriptor.isMessage → value.routine = "Message")
    (hValue : p.value scope s = .map (entries.map fun entry => (entry.1, entry.2.value)))
    (hPresent : ∀ entry ∈ entries, entry.1 ≠ .null)
    (hCarried : ∀ entry ∈ entries, value.Carries nested entry.2) :
    exec fuel call (Codec.writeMap p key value) σ =
      some (.next, σ.appending (entries.map (entryRecord p.number key value))) := by
  have hThis : eval fuel call p.onThis σ =
      some (.map (entries.map fun entry => (entry.1, entry.2.value)), σ) := by
    rw [eval_onThis hAccess hp hState.self, hValue]
  rw [Codec.writeMap, exec]
  simp only [bind_run, hThis, Option.bind_some, Value.elements, lift_some, List.map_map]
  have hRecords : entries.map (entryRecord p.number key value) =
      entries.flatMap fun entry => [entryRecord p.number key value entry] := List.map_eq_flatMap
  rw [hRecords]
  refine forEach_run fun entry hMem τ hFrame => ?_
  have hSelf : τ.frame.self = .instance typeName s := by rw [hFrame, hState.self]
  -- the variables of the entry, the latest first
  let declared : List (String × Option Value) :=
    [("value", some entry.2.value), ("key", some (.scalar entry.1))]
  have hWriter : (declared ++ τ.frame.locals).lookup "writer" = some (some .writer) := by
    rw [List.cons_append, List.cons_append, List.nil_append, List.lookup_cons, List.lookup_cons,
      hFrame]
    exact hState.writer
  have hBody := @writeEntry_run fuel call (τ.withLocals (declared ++ τ.frame.locals)) nested hNested
    p.number _ _ key value entry hWriter (eval_onThis hAccess hp hSelf) (by rw [hValue]; rfl)
    rfl rfl hKeyBase hValueBase hMessage (hPresent entry hMem) (hCarried entry hMem)
  refine inBlock_run_declared declared ?_ rfl
  simp only [Function.comp_apply, bindTo, declare, bind_run, modify_run, Option.bind_some]
  exact execAll_expr hBody

/-! ## Properties -/

/-- The statement that writes a property appends the records that carry its value. -/
theorem writeProperty_written
    (hPlan : scope.plan m = .ok plan) (legal : m.Legal scope)
    (hAccess : Accesses scope plan typeName call) {p : Property} (hp : p ∈ plan.properties)
    (hState : Serializing typeName s σ)
    (hText : p.isText → p.value scope s = .undefined ∨ ∃ text, p.value scope s = .string text)
    (hWritten : p.written scope s) {records : List Record} {back : Value}
    (hCarried : Carried nested p (p.value scope s) records back) :
    exec fuel call (Codec.writeProperty scope p) σ = some (.next, σ.appending records) := by
  have hThis : eval fuel call p.onThis σ = some (p.value scope s, σ) :=
    eval_onThis hAccess hp hState.self
  have hWriter := hState.writer
  have hGuarded : p.isMap = false → ∀ {e : Expr} {records : List Record},
      eval fuel call e σ = some (.undefined, σ.appending records) →
      exec fuel call (.guarded (Codec.isWritten p) [.expr e]) σ =
        some (.next, σ.appending records) := by
    intro hMap e records h
    obtain ⟨v, hRun, hTruth⟩ := isWritten_run hAccess hp hState hMap hText
    rw [guarded_run hRun hTruth fun _ => h, if_pos hWritten]
  rw [Codec.writeProperty]
  generalize hSame : p.value scope s = v at hCarried hThis
  cases hCarried with
  | scalar content present =>
      obtain ⟨-, hPacked, base, hBase, rfl, -⟩ := scalar_content hPlan hp content
      obtain rfl : _ = false := Bool.eq_false_iff.2 fun h => Bool.false_ne_true (hPacked h)
      rw [content]
      refine hGuarded (isMap_eq_false (by simp [content])) ?_
      simp only [Bool.false_eq_true, if_false, String.empty_append]
      exact eval_write_value hWriter (eval_int _) hThis present hBase
  | list content =>
      obtain ⟨-, -, base, hBase, rfl, rfl⟩ := scalar_content hPlan hp content
      rw [content]
      exact hGuarded (isMap_eq_false (by simp [content]))
        (eval_write_repeated hWriter (eval_int _) hThis)
  | packed content =>
      obtain ⟨-, -, base, hBase, rfl, rfl⟩ := scalar_content hPlan hp content
      rw [content]
      exact hGuarded (isMap_eq_false (by simp [content]))
        (eval_write_packed hWriter (eval_int _) hThis)
  | message content carried =>
      obtain ⟨-, -, -, -, rfl⟩ := message_content hPlan hp legal content
      have hWrites := hNested carried
      obtain ⟨other, t, rfl⟩ := hWrites.1
      rw [content]
      refine hGuarded (isMap_eq_false (by simp [content])) ?_
      refine eval_write_message hWriter (eval_int _) hThis rfl
        (runArg_writeInto (isLocal_this _ _) (fun τ hFrame => ?_) hState.writer hWrites _)
      rw [← hSame]
      exact eval_onThis hAccess hp (by rw [hFrame, hState.self])
  | messages content carried =>
      obtain ⟨-, -, -, -, rfl⟩ := message_content hPlan hp legal content
      rw [content]
      exact hGuarded (isMap_eq_false (by simp [content]))
        (eval_write_messages hWriter (eval_int _) hThis fun part hMem =>
          ⟨_, runArg_writeItem hState.writer (hNested (carried part hMem))⟩)
  | map content keys present carried =>
      obtain ⟨-, -, -, hKeyBase, hValueBase, hMessage⟩ := map_content hPlan hp legal content
      rw [content]
      exact writeMap_run hNested hAccess hp hState hKeyBase hValueBase hMessage hSame present
        carried

omit hNested in
/-- A property that is not to be written is passed over. -/
theorem writeProperty_unwritten
    (hAccess : Accesses scope plan typeName call) {p : Property} (hp : p ∈ plan.properties)
    (hState : Serializing typeName s σ)
    (hText : p.isText → p.value scope s = .undefined ∨ ∃ text, p.value scope s = .string text)
    (hWritten : ¬ p.written scope s) :
    exec fuel call (Codec.writeProperty scope p) σ = some (.next, σ.appending []) := by
  have hMap : p.isMap = false := isMap_eq_false fun key value h => hWritten (written_map h)
  obtain ⟨v, hRun, hTruth⟩ := isWritten_run hAccess hp hState hMap hText
  have hSkipped : ∀ e, exec fuel call (.guarded (Codec.isWritten p) [.expr e]) σ =
      some (.next, σ.appending []) := by
    intro e
    have hGuarded := @guarded_run _ _ _ _ _ _ e _ [] hRun hTruth fun h => absurd h hWritten
    rw [hGuarded, if_neg hWritten]
  rw [Codec.writeProperty]
  cases hContent : p.content with
  | map key value => exact absurd (written_map hContent) hWritten
  | message other repeated write => cases repeated <;> exact hSkipped _
  | scalar repeated packed write read => exact hSkipped _

/-- **The statement that writes a property appends the records that carry its value**, when the
property is to be written, and nothing otherwise. -/
theorem writeProperty_run
    (hPlan : scope.plan m = .ok plan) (legal : m.Legal scope)
    (hAccess : Accesses scope plan typeName call) {p : Property} (hp : p ∈ plan.properties)
    (hState : Serializing typeName s σ)
    (hText : p.isText → p.value scope s = .undefined ∨ ∃ text, p.value scope s = .string text)
    {records : List Record} {back : Value}
    (hCarried : p.written scope s → Carried nested p (p.value scope s) records back) :
    exec fuel call (Codec.writeProperty scope p) σ =
      some (.next, σ.appending (if p.written scope s then records else [])) := by
  by_cases hWritten : p.written scope s
  · rw [if_pos hWritten]
    exact writeProperty_written hNested hPlan legal hAccess hp hState hText hWritten
      (hCarried hWritten)
  · rw [if_neg hWritten]
    exact writeProperty_unwritten hAccess hp hState hText hWritten

/-! ## Messages -/

/-- The values of the properties of an instance are carried by some records each. -/
structure Carries (scope : Scope) (plan : Plan) (nested : Nesting) (s : Fields)
    (records : Property → List Record) (back : Property → Value) : Prop where
  text : ∀ p ∈ plan.properties, p.isText →
    p.value scope s = .undefined ∨ ∃ text, p.value scope s = .string text
  carried : ∀ p ∈ plan.properties, p.written scope s →
    Carried nested p (p.value scope s) (records p) (back p)

/-- The records of an instance: those of the properties that are written, in their order. -/
def Plan.recordsOf (scope : Scope) (plan : Plan) (s : Fields)
    (records : Property → List Record) : List Record :=
  (plan.properties.filter (·.written scope s)).flatMap records

theorem writeProperties_run
    (hPlan : scope.plan m = .ok plan) (legal : m.Legal scope)
    (hAccess : Accesses scope plan typeName call) {records : Property → List Record}
    {back : Property → Value} (hCarries : Carries scope plan nested s records back)
    (rest : List Stmt) :
    ∀ (ps : List Property) {σ : Store}, (∀ p ∈ ps, p ∈ plan.properties) →
      Serializing typeName s σ →
      execAll fuel call (ps.map (Codec.writeProperty scope) ++ rest) σ =
        execAll fuel call rest
          (σ.appending ((ps.filter (·.written scope s)).flatMap records))
  | [], σ, _, _ => by simp
  | p :: ps, σ, hMem, hState => by
      obtain ⟨hp, hRest⟩ := List.forall_mem_cons.1 hMem
      have hFirst : exec fuel call (Codec.writeProperty scope p) σ =
          some (.next, σ.appending (if p.written scope s then records p else [])) :=
        writeProperty_run hNested hPlan legal hAccess hp hState (hCarries.text p hp)
          (hCarries.carried p hp)
      have hOthers := writeProperties_run hPlan legal hAccess hCarries rest ps hRest
        (σ := σ.appending (if p.written scope s then records p else []))
        ⟨hState.self, hState.writer, hState.undefined⟩
      rw [List.map_cons, List.cons_append, execAll, bind_run, hFirst, Option.bind_some]
      simp only [hOthers, Store.appending_append]
      by_cases hWritten : p.written scope s <;> simp [hWritten]

/-- The body of the writing method, given a writer or none. -/
theorem serializeBody_run
    (hPlan : scope.plan m = .ok plan) (legal : m.Legal scope)
    (hAccess : Accesses scope plan typeName call) {records : Property → List Record}
    {back : Property → Value} (hCarries : Carries scope plan nested s records back)
    {names : Names} (hRuntime : names.runtime = scope.runtime)
    (hUndefined : names.reach ["undefined"] = .global) (given : Bool) :
    let w : Value := if given then .writer else .undefined
    let output := (if given then σ.output else []) ++ plan.recordsOf scope s records
    execAll fuel call (Codec.serializeBody scope plan)
        { σ with frame := ⟨.instance typeName s, names, [("w", some w)]⟩ } =
      some (if given then .next else .give (.buffer output),
        writingStore names (.instance typeName s) w output σ) := by
  intro w output
  have hOpen : exec fuel call (.constant "writer" (.binary (.ident "w") "||"
        (.construct (.member (.ident scope.runtime) "BinaryWriter") [])))
      { σ with frame := ⟨.instance typeName s, names, [("w", some w)]⟩ } =
        some (.next, writingStore names (.instance typeName s) w
          (if given then σ.output else []) σ) := openWriter_run hRuntime given
  have hGiven : w.truth = some given := by cases given <;> rfl
  rw [Codec.serializeBody, List.append_assoc, List.singleton_append, execAll_cons hOpen]
  refine (writeProperties_run hNested hPlan legal hAccess hCarries _ plan.properties
    (fun _ h => h) ⟨rfl, rfl, rfl, hUndefined⟩).trans ?_
  exact giveResult_run hGiven

end Nested

end Writing

/-! ## The method of a class -/

section Serialize

variable {P : Program} {typeName : String} {scope : Scope} {m : MessageDescriptor} {plan : Plan}
  {nested : Nesting} {n : Nat} {s : Fields} {records : Property → List Record}
  {back : Property → Value}

theorem invoke_serialize (hClass : ClassOf P typeName scope m plan)
    (args : List Value) (σ : Store) :
    P.invoke (n + 1) (.method (.instance typeName s) "serialize" args) σ =
      (runBody n (P.invoke n) (namesIn P typeName scope) (.instance typeName s)
        [.optionalTyped "w" (Codec.writerType scope)] args (Codec.serializeBody scope plan) σ).map
          fun result => (result.1.1, result.2) := by
  simp [Program.invoke, Program.answer, names?_eq hClass, members?_eq hClass,
    method?_serialize]

/-- **An instance writes the records of its written properties**: to a writer that it is given,
or to a new one whose content it returns. -/
theorem serialize_run (hClass : ClassOf P typeName scope m plan)
    (hAccess : Accesses scope plan typeName (P.invoke n))
    (hCarries : Carries scope plan nested s records back)
    (hNested : ∀ {other v records back}, nested other v records back →
      Writes (P.invoke n) v records) :
    Writes (P.invoke (n + 1)) (.instance typeName s) (plan.recordsOf scope s records) ∧
      ∀ σ, P.invoke (n + 1) (.method (.instance typeName s) "serialize" []) σ =
        some (.buffer (plan.recordsOf scope s records),
          { σ with output := plan.recordsOf scope s records }) := by
  have hBody (given : Bool) (σ : Store) := @serializeBody_run scope plan typeName n (P.invoke n) s
    σ m nested hNested hClass.planned hClass.legal hAccess records back hCarries
    (namesIn P typeName scope) rfl hClass.globals.undefined given
  refine ⟨⟨⟨_, _, rfl⟩, fun σ => ?_⟩, fun σ => ?_⟩
  · have hGiven := hBody true σ
    simp only [if_true] at hGiven
    rw [invoke_serialize hClass]
    simp [runBody, inFrame, bindParams, bindTo, declare, Param.optionalTyped, bodyValue,
      Store.withLocals, hGiven, writingStore, Store.appending]
  · have hNew := hBody false σ
    simp only [Bool.false_eq_true, if_false, List.nil_append] at hNew
    rw [invoke_serialize hClass]
    simp [runBody, inFrame, bindParams, bindTo, declare, Param.optionalTyped, bodyValue,
      Store.withLocals, hNew, writingStore]

end Serialize

end Protoscribe

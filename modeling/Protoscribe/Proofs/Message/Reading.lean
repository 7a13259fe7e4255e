import Protoscribe.Proofs.Evaluation.Reader
import Protoscribe.Proofs.Message.Construction
import Protoscribe.Proofs.Message.Writing

set_option autoImplicit false

/-! # What is read for a property

The reading method has a variable for the message that it makes and another one for the reader
(`readingFrame`). `Takes` says of the expression that reads a property that it takes a record into
the message. Main statement: `absorbs_property`, the records that carry the value of a property are
read back into it, when the paths of the types in it lead past the variables around them
(`Scope.readingVariables`).
-/

namespace Protoscribe

open TypeScript Evaluation

/-! ## Nested messages -/

/-- A message of a type is read from some records: all of them are used up. -/
def Reads (call : Invocation → M Value) (typeName : String) (records : List Record) (v : Value) :
    Prop :=
  ∀ σ : Store, σ.input = records →
    call (.static typeName "deserialize" [.reader]) σ = some (v, σ.before [])

/-- The variables of the reading method. -/
def readingVariables : List String := ["message", "reader", "bytes"]

/-- The frame in which a message is read. -/
def readingFrame (names : Names) (bytes : Value) (typeName : String) (t : Fields) : Frame :=
  ⟨.undefined, names,
    [("message", some (.instance typeName t)), ("reader", some .reader), ("bytes", some bytes)]⟩

/-- The variables around the path of a type in the reading method; the value of a map entry is kept
in a variable of its own. -/
def Scope.readingVariables (scope : Scope) (f : FieldDescriptor) : List String :=
  match scope.mapOf? f with
  | some _ => "value" :: Protoscribe.readingVariables
  | none => Protoscribe.readingVariables

section Reading

variable {scope : Scope} {plan : Plan} {typeName other : String} {fuel : Nat}
  {call : Invocation → M Value} {names : Names} {bytes : Value} {t u : Fields} {σ τ : Store}

theorem eval_readFrom {v : Value} {records : List Record}
    (hLeads : LeadsTo σ.frame (scope.valueRef other) other)
    (hReader : σ.frame.locals.lookup "reader" = some (some .reader))
    (hReads : Reads call other records v) (hInput : σ.input = records) :
    eval fuel call (Codec.readFrom scope other) σ = some (v, σ.before []) := by
  have hArgs : values (evalArgs fuel call [Codec.reader]) σ = some ([.reader], σ) :=
    values_cons (eval_variable hReader) values_nil
  rw [Codec.readFrom, eval_static hLeads hArgs, hReads σ hInput]

/-! ## The message that is read -/

theorem frame_reader (hFrame : σ.frame = readingFrame names bytes typeName t) :
    σ.frame.locals.lookup "reader" = some (some .reader) := by
  rw [hFrame]
  rfl

theorem frame_message (hFrame : σ.frame = readingFrame names bytes typeName t) :
    σ.frame.locals.lookup "message" = some (some (.instance typeName t)) := by
  rw [hFrame]
  rfl

theorem frame_taken (hFrame : σ.frame = readingFrame names bytes typeName t) :
    ∀ pair ∈ σ.frame.locals, pair.1 ∈ readingVariables := by
  rw [hFrame]
  simp [readingFrame, readingVariables]

theorem read_message (hFrame : σ.frame = readingFrame names bytes typeName t) :
    (Holder.variable "message").read σ = some (.instance typeName t, σ) := by
  simp [Holder.read, frame_message hFrame]

theorem write_message (hFrame : σ.frame = readingFrame names bytes typeName t) :
    (Holder.variable "message").write (.instance typeName u) σ =
      some (⟨⟩, { σ with frame := readingFrame names bytes typeName u }) := by
  simp [Holder.write, assignLocal, hFrame, readingFrame, afterAssignment, Store.withLocals]

/-- The property of the message that is read. -/
theorem eval_onMessage (hAccess : Accesses scope plan typeName call) {p : Property}
    (hp : p ∈ plan.properties) (hFrame : σ.frame = readingFrame names bytes typeName t) :
    eval fuel call (p.on "message") σ = some (p.value scope t, σ) := by
  rw [Property.on, eval_member_variable (frame_message hFrame), memberValue, hAccess.get p hp]

/-- An assignment to a property of the message that is read. -/
theorem eval_assignMessage (hAccess : Accesses scope plan typeName call) {p : Property}
    (hp : p ∈ plan.properties) {e : Expr} {v : Value} (h : eval fuel call e σ = some (v, τ))
    (hFrame : τ.frame = readingFrame names bytes typeName t) :
    eval fuel call (.assign (p.on "message") e) σ =
      some (v, { τ with frame := readingFrame names bytes typeName (plan.stored p v t) }) := by
  have hAssign : assign call (p.on "message") v τ =
      some (⟨⟩, { τ with frame := readingFrame names bytes typeName (plan.stored p v t) }) := by
    simp [assign, Property.on, holder?, read_message hFrame, memberAssigned, hAccess.set p hp,
      write_message hFrame]
  simp [Expr.assign, eval, h, hAssign]

/-- A call of the runtime on the message that is read. -/
theorem eval_runtimeCall_message {name : String} {args : List Expr} {function : Function}
    {vs : List Value} {result : Value} (hRuntime : σ.frame.names.runtime = scope.runtime)
    (hFrame : τ.frame = readingFrame names bytes typeName t)
    (hFunction : Runtime.functions.lookup name = some function)
    (hArgs : values (evalArgs fuel call args) σ = some (vs, τ))
    (hResult : function t vs = some (u, result)) :
    eval fuel call (scope.runtimeCall name (.ident "message" :: args)) σ =
      some (result, { τ with frame := readingFrame names bytes typeName u }) := by
  rw [eval_runtimeCall hRuntime, evalArgs]
  exact messageCall_run hFunction rfl hArgs (read_message hFrame) hResult (write_message hFrame)

/-! ## One record -/

/-- The expression that reads a property takes a record: the fields of the message change, and
nothing else. -/
def Takes (scope : Scope) (fuel : Nat) (call : Invocation → M Value) (names : Names)
    (bytes : Value) (typeName : String) (p : Property) (record : Record) (t u : Fields) : Prop :=
  ∀ σ : Store, σ.frame = readingFrame names bytes typeName t → σ.current = some record →
    ∃ v, eval fuel call (Codec.readProperty scope p) σ =
      some (v, { σ with frame := readingFrame names bytes typeName u })

/-- A message inside the record that the reader stands at. -/
theorem eval_readInner {records : List Record} {back : Value}
    (hLeads : names.Leads readingVariables (Text.segments '.' (scope.path other)) other)
    (hReads : Reads call other records back)
    (hFrame : σ.frame = readingFrame names bytes typeName t) :
    eval fuel call (Codec.readFrom scope other) (σ.before records) =
      some (back, (σ.before records).before []) := by
  have hInner : (σ.before records).frame = readingFrame names bytes typeName t := hFrame
  have hTo : LeadsTo (σ.before records).frame (scope.valueRef other) other :=
    leadsTo_valueRef (by rw [hInner]; exact hLeads) (frame_taken hInner)
  exact eval_readFrom hTo (frame_reader hInner) hReads rfl

section Takes

variable (hRuntime : names.runtime = scope.runtime) (hAccess : Accesses scope plan typeName call)
  {p : Property} (hp : p ∈ plan.properties)

include hAccess hp in
/-- A scalar or a packed list replaces the value of the property. -/
theorem takes_scalar {repeated packed : Bool} {write read : String} {value : Value}
    (content : p.content = .scalar repeated packed write read) (single : repeated → packed) :
    Takes scope fuel call names bytes typeName p (p.number, read, value) t
      (plan.stored p value t) := by
  intro σ hFrame hCurrent
  have hRead : eval fuel call (Codec.reader.method ("read" ++ read) []) σ = some (value, σ) :=
    eval_read (frame_reader hFrame) hCurrent
  have hAssigned := eval_assignMessage hAccess hp hRead hFrame
  rw [Codec.readProperty, content]
  cases repeated with
  | false => exact ⟨_, hAssigned⟩
  | true =>
      obtain rfl := single rfl
      exact ⟨_, hAssigned⟩

include hRuntime in
/-- An element goes to the end of a list. -/
theorem takes_element {write read : String} {items : List Value} {value : Value}
    (content : p.content = .scalar true false write read)
    (hItems : t p.number = some (.list items)) :
    Takes scope fuel call names bytes typeName p (p.number, read, value) t
      (t.put p.number (.list (items ++ [value]))) := by
  intro σ hFrame hCurrent
  have hRead : eval fuel call (Codec.reader.method ("read" ++ read) []) σ = some (value, σ) :=
    eval_read (frame_reader hFrame) hCurrent
  have hArgs := values_cons (eval_int p.number) (values_cons hRead values_nil)
  have hResult : Runtime.addToRepeatedField t [.int p.number, value] =
      some (t.put p.number (.list (items ++ [value])), .undefined) := by
    simp [Runtime.addToRepeatedField, Value.int, hItems]
  rw [Codec.readProperty, content]
  exact ⟨_, eval_runtimeCall_message (by rw [hFrame]; exact hRuntime) hFrame rfl
    hArgs hResult⟩

variable {records : List Record} {back : Value}
  (hLeads : names.Leads readingVariables (Text.segments '.' (scope.path other)) other)
  (hReads : Reads call other records back)

include hAccess hp hLeads hReads

/-- A message replaces the value of the property. -/
theorem takes_message {write : String} (content : p.content = .message other false write) :
    Takes scope fuel call names bytes typeName p (p.number, "Message", .buffer records) t
      (plan.stored p back t) := by
  intro σ hFrame hCurrent
  have hInner : (σ.before records).frame = readingFrame names bytes typeName t := hFrame
  have hFrom : eval fuel call (Codec.readFrom scope other) (σ.before records) =
      some (back, (σ.before records).before []) := eval_readInner hLeads hReads hFrame
  have hStore := eval_assignMessage hAccess hp hFrom hInner
  rw [Codec.readProperty, content]
  exact ⟨_, eval_readMessage (frame_reader hFrame) (eval_onMessage hAccess hp hFrame) hCurrent
    hStore (by rw [hFrame]; rfl)⟩

include hRuntime in
/-- A message goes to the end of a list of messages. -/
theorem takes_messageElement {write : String} {items : List Value}
    (content : p.content = .message other true write)
    (hItems : t p.number = some (.list items)) :
    Takes scope fuel call names bytes typeName p (p.number, "Message", .buffer records) t
      (t.put p.number (.list (items ++ [back]))) := by
  intro σ hFrame hCurrent
  have hInner : (σ.before records).frame = readingFrame names bytes typeName t := hFrame
  have hFrom : eval fuel call (Codec.readFrom scope other) (σ.before records) =
      some (back, (σ.before records).before []) := eval_readInner hLeads hReads hFrame
  have hRead : ((σ.before records).before []).frame = readingFrame names bytes typeName t := hFrame
  have hTo : LeadsTo ((σ.before records).before []).frame (scope.valueRef other) other :=
    leadsTo_valueRef (by rw [hRead]; exact hLeads) (frame_taken hRead)
  obtain ⟨path, hClass⟩ := @eval_class fuel call _ _ _ hTo
  have hArgs :=
    values_cons (eval_int p.number) (values_cons hFrom (values_cons hClass values_nil))
  have hResult : Runtime.addToRepeatedWrapperField t [.int p.number, back, .symbol path] =
      some (t.put p.number (.list (items ++ [back])), .undefined) := by
    simp [Runtime.addToRepeatedWrapperField, Runtime.addToRepeatedField, Value.int, hItems]
  have hStore : eval fuel call (scope.runtimeCall "addToRepeatedWrapperField"
      [.ident "message", .int p.number, Codec.readFrom scope other, scope.valueRef other])
      (σ.before records) = some (.undefined, { (σ.before records).before [] with
        frame := readingFrame names bytes typeName (t.put p.number (.list (items ++ [back]))) }) :=
    eval_runtimeCall_message (by rw [hInner]; exact hRuntime) hInner rfl hArgs hResult
  rw [Codec.readProperty, content]
  exact ⟨_, eval_readMessage (frame_reader hFrame) (eval_onMessage hAccess hp hFrame) hCurrent
    hStore (by rw [hFrame]; rfl)⟩

end Takes

/-! ## Entries of maps -/

/-- How the value of a map entry is read back. -/
def MapSide.ReadsBack (call : Invocation → M Value) (value : MapSide) (part : Part) : Prop :=
  if value.descriptor.isMessage then
    Reads call value.descriptor.typeName part.records part.back
  else part.back = part.value

theorem readsBack_of_carries {nested : Nesting} {value : MapSide} {part : Part}
    (hNested : ∀ {other v records back}, nested other v records back →
      Reads call other records back) (h : value.Carries nested part) :
    value.ReadsBack call part := by
  rw [MapSide.Carries] at h
  rw [MapSide.ReadsBack]
  by_cases hMessage : value.descriptor.isMessage
  · rw [if_pos hMessage] at h ⊢
    exact hNested h
  · rw [if_neg hMessage] at h ⊢
    exact h.2

/-- The function that reads the value of a map entry. -/
theorem runArg_mapValueReader {value : MapSide} {part : Part}
    (hLeads : value.descriptor.isMessage → names.Leads ("value" :: readingVariables)
      (Text.segments '.' (scope.path value.descriptor.typeName)) value.descriptor.typeName)
    (hReads : value.ReadsBack call part) (hFrame : σ.frame = readingFrame names bytes typeName t)
    (hCurrent : σ.current = some (value.record part)) (args : List Value) :
    runArg fuel call (Codec.mapValueReader scope value) args σ = some (part.back, σ) := by
  rw [MapSide.ReadsBack] at hReads
  rw [MapSide.record] at hCurrent
  rw [Codec.mapValueReader]
  by_cases hMessage : value.descriptor.isMessage
  · rw [if_pos hMessage] at hReads hCurrent ⊢
    have hOuterReader := frame_reader hFrame
    have hOuterMessage := frame_message hFrame
    -- the state with the variable that holds the value
    let holding (v : Value) : Store := σ.withLocals (("value", some v) :: σ.frame.locals)
    have hReader : (holding .undefined).frame.locals.lookup "reader" = some (some .reader) :=
      hOuterReader
    have hMessageVariable : (holding .undefined).frame.locals.lookup "message" =
        some (some (.instance typeName t)) := hOuterMessage
    have hHolding : (holding .undefined).current = some (2, "Message", .buffer part.records) :=
      hCurrent
    have hTo : LeadsTo (holding .undefined).frame (scope.valueRef value.descriptor.typeName)
        value.descriptor.typeName := by
      have hNames : (holding .undefined).frame.names = names := congrArg Frame.names hFrame
      refine leadsTo_valueRef (by rw [hNames]; exact hLeads hMessage) ?_
      exact List.forall_mem_cons.2
        ⟨List.mem_cons_self, fun pair h => List.mem_cons_of_mem _ (frame_taken hFrame pair h)⟩
    have hFrom : eval fuel call (Codec.readFrom scope value.descriptor.typeName)
        ((holding .undefined).before part.records) =
          some (part.back, (holding .undefined).before []) :=
      eval_readFrom hTo hReader hReads rfl
    have hAssign : eval fuel call
        (.assign (.ident "value") (Codec.readFrom scope value.descriptor.typeName))
        ((holding .undefined).before part.records) =
          some (part.back, (holding part.back).before []) := eval_assign_variable hFrom rfl
    have hRead : eval fuel call
        (Codec.readMessage (.ident "message")
          (.assign (.ident "value") (Codec.readFrom scope value.descriptor.typeName)))
        (holding .undefined) = some (.undefined, holding part.back) :=
      eval_readMessage hReader (eval_variable hMessageVariable) hHolding hAssign rfl
    have hBody : execAll fuel call
        [.declare "value",
          .expr (Codec.readMessage (.ident "message")
            (.assign (.ident "value") (Codec.readFrom scope value.descriptor.typeName))),
          .give (.ident "value")] σ = some (.give part.back, holding part.back) := by
      rw [execAll_cons (τ := holding .undefined) rfl, execAll_cons (exec_expr hRead)]
      exact execAll_give (eval_variable rfl)
    rw [runArg]
    refine inBlock_run_declared [("value", some part.back)] ?_ rfl
    simp only [bindParams, bind_run, pure_run, Option.bind_some, hBody]
    rfl
  · rw [if_neg hMessage] at hReads hCurrent ⊢
    rw [hReads]
    exact runArg_read (frame_reader hFrame) hCurrent args

/-- An entry goes into a map. -/
theorem takes_entry (hRuntime : names.runtime = scope.runtime)
    (hAccess : Accesses scope plan typeName call) {p : Property} (hp : p ∈ plan.properties)
    {key value : MapSide} (content : p.content = .map key value) {entry : Scalar × Part}
    {entries : List (Scalar × Value)} (hEntries : t p.number = some (.map entries))
    (hLeads : value.descriptor.isMessage → names.Leads ("value" :: readingVariables)
      (Text.segments '.' (scope.path value.descriptor.typeName)) value.descriptor.typeName)
    (hReads : value.ReadsBack call entry.2) :
    Takes scope fuel call names bytes typeName p (entryRecord p.number key value entry) t
      (t.put p.number (.map (insertEntry entry.1 entry.2.back entries))) := by
  intro σ hFrame hCurrent
  rw [entryRecord] at hCurrent
  let inner := σ.before [(1, key.routine, .scalar entry.1), value.record entry.2]
  have hInner : inner.frame = readingFrame names bytes typeName t := hFrame
  have hMap : p.isMap := by rw [Property.isMap, content]
  have hValue : p.value scope t = .map entries := Property.value_of_some hEntries
  have hOnMessage : eval fuel call (p.on "message") inner = some (.map entries, inner) := by
    rw [eval_onMessage hAccess hp hInner, hValue]
  have hSecond : (value.record entry.2).1 = 2 := by
    rw [MapSide.record]
    split <;> rfl
  let readKey := runArg fuel call (.member Codec.reader ("read" ++ key.routine)) [.reader]
  let readContent := runArg fuel call (Codec.mapValueReader scope value) [.reader]
  let after : Store := { inner with input := [], current := some (value.record entry.2) }
  have hEntry : readEntry readKey readContent .undefined .undefined inner.input inner =
      some ((.scalar entry.1, entry.2.back), after) :=
    readEntry_run rfl hSecond
      (fun τ hSame hAt => runArg_read (frame_reader (hSame.trans hInner)) hAt [.reader])
      (fun τ hSame hAt => runArg_mapValueReader hLeads hReads (hSame.trans hInner) hAt [.reader])
  have hStore : eval fuel call
      (Expr.method (.member (.ident scope.runtime) "Map") "deserializeBinary"
        [.cast (p.on "message") (.named "any"), Codec.reader,
          .member Codec.reader ("read" ++ key.routine), Codec.mapValueReader scope value]) inner =
        some (.undefined, { after with
          frame := readingFrame names bytes typeName
            (t.put p.number (.map (insertEntry entry.1 entry.2.back entries))) }) := by
    have hMapClass : inner.frame.runtime? (.member (.ident scope.runtime) "Map") = some "Map" :=
      frame_runtime? (by rw [hInner]; exact hRuntime) "Map"
    let argument (e : Expr) : Arg := ⟨e, eval fuel call e, runArg fuel call e⟩
    have hCall : mapCall call "deserializeBinary"
        [argument (.cast (p.on "message") (.named "any")), argument Codec.reader,
          argument (.member Codec.reader ("read" ++ key.routine)),
          argument (Codec.mapValueReader scope value)] inner = some (.undefined, { after with
        frame := readingFrame names bytes typeName
          (t.put p.number (.map (insertEntry entry.1 entry.2.back entries))) }) :=
      mapCall_run rfl (by rw [eval]; exact hOnMessage) (read_message hInner)
        (hAccess.slot p hp hMap t inner) hEntry (write_message hInner)
    rw [eval_mapMethod hMapClass]
    exact hCall
  rw [Codec.readProperty, content]
  exact ⟨_, eval_readMessage (frame_reader hFrame) (eval_variable (frame_message hFrame)) hCurrent
    hStore (by rw [hFrame]; rfl)⟩

/-! ## One turn of the loop -/

/-- The body of the loop that reads the fields of a message. -/
def readingBody (scope : Scope) (plan : Plan) : List Stmt :=
  [.guarded (Codec.reader.method "isEndGroup" []) [.leave],
    .select (Codec.reader.method "getFieldNumber" [])
      (plan.properties.map (Codec.readCase scope))
      (some [.expr (Codec.reader.method "skipField" [])])]

/-- The case of a property is taken for its number. -/
theorem execCases_run {default : M Flow} {ps : List Property}
    (hNodup : (ps.map Property.number).Nodup) {p : Property} (hp : p ∈ ps) {v : Value}
    (h : eval fuel call (Codec.readProperty scope p) σ = some (v, τ)) :
    execCases fuel call (.int p.number) default (ps.map (Codec.readCase scope)) σ =
      some (.leave, τ) := by
  induction ps with
  | nil => cases hp
  | cons q ps ih =>
      obtain ⟨hFirst, hRest⟩ := List.nodup_cons.1 hNodup
      have hTest : Value.strictlyEqual (.int p.number) (.int q.number) =
          some (decide (p.number = q.number)) := by
        simp [Value.int, Value.strictlyEqual, Scalar.same]
      rw [List.map_cons, Codec.readCase, execCases, bind_run, eval_int, Option.bind_some, hTest]
      by_cases hSame : p.number = q.number
      · obtain rfl : p = q := (List.mem_cons.1 hp).resolve_right fun hMem =>
          hFirst (List.mem_map.2 ⟨p, hMem, hSame⟩)
        have hBody : execAll fuel call [.expr (Codec.readProperty scope p), .leave] σ =
            some (.leave, τ) := by
          rw [execAll_cons (exec_expr h)]
          simp [execAll, exec]
        simp [hBody]
      · have hMem : p ∈ ps := (List.mem_cons.1 hp).resolve_left fun h => hSame (by rw [h])
        simp [hSame, ih hRest hMem]

/-- The fields of the message change as a property takes a record. -/
theorem absorbs_record {m : MessageDescriptor} (hPlan : scope.plan m = .ok plan)
    (distinct : m.DistinctNumbers) {p : Property} (hp : p ∈ plan.properties) {record : Record}
    (hNumber : record.1 = p.number)
    (h : Takes scope fuel call names bytes typeName p record t u) :
    Absorbs (readingFrame names bytes typeName) (inBlock (execAll fuel call (readingBody scope plan)))
      [record] t u := by
  refine .cons (fun σ hFrame hCurrent => ?_) (.nil u)
  obtain ⟨v, hRead⟩ := h σ hFrame hCurrent
  have hReader := frame_reader hFrame
  have hEnd : eval fuel call (Codec.reader.method "isEndGroup" []) σ = some (.bool false, σ) := by
    rw [eval_reader_method hReader]
    rfl
  have hSubject : eval fuel call (Codec.reader.method "getFieldNumber" []) σ =
      some (.int p.number, σ) := by
    rw [eval_reader_method hReader, ← hNumber]
    simp [readerCall, hCurrent]
  have hSelect : exec fuel call
      (.select (Codec.reader.method "getFieldNumber" []) (plan.properties.map (Codec.readCase scope))
        (some [.expr (Codec.reader.method "skipField" [])])) σ =
        some (.next, { σ with frame := readingFrame names bytes typeName u }) :=
    exec_select hSubject (execCases_run (nodup_numbers hPlan distinct) hp hRead)
      (by rw [hFrame]; rfl)
  refine inBlock_run_same ?_ (by rw [hFrame]; rfl)
  rw [readingBody, execAll_cons (τ := σ) (exec_guarded hEnd rfl), execAll_cons hSelect, execAll]
  rfl

theorem foldl_append_single {α β : Type} (f : α → β) (parts : List α) :
    parts.foldl (fun items part => items ++ [f part]) [] = parts.map f := by
  rw [List.foldl_append_eq_append, List.nil_append, ← List.flatMap_def, ← List.map_eq_flatMap]

/-- Records that each add something to the value of a property. -/
theorem absorbs_each {α β : Type} {body : M Flow} {number : Int} (record : α → Record)
    (wrap : β → Value) (grow : β → α → β) (present : ∀ b, (wrap b).isMissing = false) :
    ∀ {parts : List α} {b : β} {t : Fields},
      (∀ part ∈ parts, ∀ b t, t number = some (wrap b) →
        Absorbs (readingFrame names bytes typeName) body [record part] t
          (t.put number (wrap (grow b part)))) →
      t number = some (wrap b) →
      Absorbs (readingFrame names bytes typeName) body (parts.map record) t
        (t.put number (wrap (parts.foldl grow b)))
  | [], b, t, _, hStored => by
      rw [List.foldl_nil, Fields.put_same hStored (present b)]
      exact .nil t
  | part :: parts, b, t, hEach, hStored => by
      obtain ⟨hFirst, hRest⟩ := List.forall_mem_cons.1 hEach
      have hOthers := absorbs_each record wrap grow present (t := t.put number (wrap (grow b part))) hRest
        (Fields.put_number (present _))
      rw [Fields.put_put] at hOthers
      exact (hFirst b t hStored).append hOthers

/-! ## Properties -/

/-- **The records that carry the value of a property are read back into it.** -/
theorem absorbs_property {m : MessageDescriptor} {nested : Nesting}
    (hPlan : scope.plan m = .ok plan) (legal : m.Legal scope)
    (hRuntime : names.runtime = scope.runtime)
    (hReaches : Reaches scope m names scope.readingVariables)
    (hAccess : Accesses scope plan typeName call) {p : Property} (hp : p ∈ plan.properties)
    (hNested : ∀ {other v records back}, nested other v records back →
      Reads call other records back)
    {v back : Value} {records : List Record} (hCarried : Carried nested p v records back)
    (hInitial : p.slot.isList ∨ p.isMap → t p.number = p.initial) :
    Absorbs (readingFrame names bytes typeName) (inBlock (execAll fuel call (readingBody scope plan)))
      records t (plan.stored p back t) := by
  have hRecord {record : Record} {t u : Fields} (hNumber : record.1 = p.number)
      (hTakes : Takes scope fuel call names bytes typeName p record t u) :
      Absorbs (readingFrame names bytes typeName)
        (inBlock (execAll fuel call (readingBody scope plan))) [record] t u :=
    absorbs_record hPlan legal.numbers hp hNumber hTakes
  have hField := (property_of_plan hPlan hp).1
  have hList : p.slot.isList → t p.number = some (.list []) ∧
      ∀ back, plan.stored p back t = t.put p.number back := by
    intro h
    have hStored := hInitial (Or.inl h)
    rw [Property.initial, if_pos h] at hStored
    exact ⟨hStored, fun back => stored_single (oneof_eq_none hPlan hp legal (Or.inl h)) back t⟩
  cases hCarried with
  | scalar content present =>
      obtain ⟨-, hPacked, base, -, rfl, rfl⟩ := scalar_content hPlan hp content
      obtain rfl : _ = false := Bool.eq_false_iff.2 fun h => Bool.false_ne_true (hPacked h)
      exact hRecord rfl (takes_scalar hAccess hp content (by simp))
  | @list write read items content =>
      obtain ⟨hIsList, -⟩ := scalar_content hPlan hp content
      obtain ⟨hEmpty, hStored⟩ := hList hIsList
      have hItems := absorbs_each (fun item => (p.number, read, item)) Value.list
        (fun items item => items ++ [item]) (fun _ => rfl)
        (fun item (_ : item ∈ items) items t h => hRecord rfl (takes_element hRuntime content h))
        hEmpty
      rw [foldl_append_single, List.map_id'] at hItems
      rw [hStored]
      exact hItems
  | @packed write read items content =>
      obtain ⟨hIsList, -, base, -, rfl, rfl⟩ := scalar_content hPlan hp content
      obtain ⟨hEmpty, hStored⟩ := hList hIsList
      cases items with
      | nil =>
          rw [hStored, Fields.put_same hEmpty rfl]
          exact .nil t
      | cons item items => exact hRecord rfl (takes_scalar hAccess hp content (by simp))
  | message content carried =>
      obtain ⟨-, hMap, -, -, rfl⟩ := message_content hPlan hp legal content
      have hLeads := hReaches _ hField _ (messageType?_of_message hPlan legal hp content)
      rw [Scope.readingVariables, hMap] at hLeads
      exact hRecord rfl (takes_message hAccess hp hLeads (hNested carried) content)
  | @messages _ _ parts content carried =>
      obtain ⟨hIsList, hMap, -, -, rfl⟩ := message_content hPlan hp legal content
      obtain ⟨hEmpty, hStored⟩ := hList hIsList
      have hLeads := hReaches _ hField _ (messageType?_of_message hPlan legal hp content)
      rw [Scope.readingVariables, hMap] at hLeads
      have hItems := absorbs_each (fun part => (p.number, "Message", .buffer part.records))
        Value.list (fun items (part : Part) => items ++ [part.back]) (fun _ => rfl)
        (fun part (hMem : part ∈ parts) items t h => hRecord rfl (takes_messageElement hRuntime
          hAccess hp hLeads (hNested (carried part hMem)) content h)) hEmpty
      rw [foldl_append_single] at hItems
      rw [hStored]
      exact hItems
  | @map key value entries content keys present carried =>
      obtain ⟨hNotList, -, ⟨entry, hMap, -⟩, -⟩ := map_content hPlan hp legal content
      have hIsMap : p.isMap := by rw [Property.isMap, content]
      have hEmpty : t p.number = some (.map []) := by
        rw [hInitial (Or.inr hIsMap), Property.initial, hNotList, hIsMap]
        rfl
      have hLeads : value.descriptor.isMessage → names.Leads ("value" :: readingVariables)
          (Text.segments '.' (scope.path value.descriptor.typeName))
          value.descriptor.typeName := by
        intro hMessage
        have h := hReaches _ hField _ (messageType?_of_map hPlan legal hp content hMessage)
        rwa [Scope.readingVariables, hMap] at h
      have hEntries := absorbs_each (entryRecord p.number key value) Value.map
        (fun map entry => insertEntry entry.1 entry.2.back map) (fun _ => rfl)
        (fun entry (hMem : entry ∈ entries) map t h => hRecord rfl (takes_entry hRuntime hAccess hp
          content h hLeads (readsBack_of_carries hNested (carried entry hMem)))) hEmpty
      rw [foldl_insertEntry (by simpa using keys), List.nil_append] at hEntries
      rw [stored_single (oneof_eq_none hPlan hp legal (Or.inr hIsMap))]
      exact hEntries

end Reading

end Protoscribe

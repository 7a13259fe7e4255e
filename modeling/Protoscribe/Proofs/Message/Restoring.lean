import Protoscribe.Proofs.Message.Construction
import Protoscribe.Proofs.Message.Reading

set_option autoImplicit false

/-! # What is read back from an instance

A new message takes the records of the written properties one property after the other, which
stores the values that are read back in this order (`Plan.restored`). Main statements:
`deserialize_run`, reading the records of an instance gives these fields where the class can be read
(`Readable`); `deserialize_taken`, a class with the name of a variable of the reading method is
never read; `restored_kept` and `restored_dropped`, a property that is written holds what was read
back for it, unless a later member of its oneof is written too.
-/

namespace Protoscribe

open TypeScript Evaluation

/-- The fields that are read back for the written properties of an instance. -/
def Plan.restored (scope : Scope) (plan : Plan) (s : Fields) (back : Property → Value) : Fields :=
  (plan.properties.filter (·.written scope s)).foldl (fun t p => plan.stored p (back p) t)
    plan.fresh

section Restoring

variable {scope : Scope} {m : MessageDescriptor} {plan : Plan} {typeName : String} {fuel : Nat}
  {call : Invocation → M Value} {names : Names} {bytes : Value} {nested : Nesting} {s t : Fields}
  {records : Property → List Record} {back : Property → Value} {σ : Store}

/-! ## Reading all records -/

theorem absorbs_properties (hPlan : scope.plan m = .ok plan) (legal : m.Legal scope)
    (hRuntime : names.runtime = scope.runtime)
    (hReaches : Reaches scope m names scope.readingVariables)
    (hAccess : Accesses scope plan typeName call)
    (hCarries : Carries scope plan nested s records back)
    (hNested : ∀ {other v records back}, nested other v records back →
      Reads call other records back) :
    ∀ {ps : List Property} {t : Fields},
      (∀ p ∈ ps, p ∈ plan.properties ∧ p.written scope s) → (ps.map Property.number).Nodup →
      (∀ p ∈ ps, p.slot.isList ∨ p.isMap → t p.number = p.initial) →
      Absorbs (readingFrame names bytes typeName)
        (inBlock (execAll fuel call (readingBody scope plan))) (ps.flatMap records) t
        (ps.foldl (fun t p => plan.stored p (back p) t) t)
  | [], t, _, _, _ => .nil t
  | p :: ps, t, hMem, hNodup, hInitial => by
      obtain ⟨⟨hp, hWritten⟩, hRest⟩ := List.forall_mem_cons.1 hMem
      obtain ⟨hNew, hNodupRest⟩ := List.nodup_cons.1 hNodup
      obtain ⟨hInitialFirst, hInitialRest⟩ := List.forall_mem_cons.1 hInitial
      have hFirst : Absorbs (readingFrame names bytes typeName)
          (inBlock (execAll fuel call (readingBody scope plan))) (records p) t
          (plan.stored p (back p) t) :=
        absorbs_property hPlan legal hRuntime hReaches hAccess hp hNested
          (hCarries.carried p hp hWritten) hInitialFirst
      rw [List.flatMap_cons, List.foldl_cons]
      refine hFirst.append (absorbs_properties hPlan legal hRuntime hReaches hAccess hCarries
        hNested hRest hNodupRest fun q hq hKind => ?_)
      -- lists and maps that are still to come are not touched
      have hqMem := (hRest q hq).1
      have hDifferent : q.number ≠ p.number := fun h => hNew (List.mem_map.2 ⟨q, hq, h⟩)
      have hSingle := oneof_eq_none hPlan hqMem legal hKind
      rw [stored_number hPlan legal.numbers legal.oneofs hp hqMem, if_neg hDifferent, if_neg]
      · exact hInitialRest q hq hKind
      · rintro ⟨hOneof, hSame⟩
        exact hOneof (hSame.symm.trans hSingle)

/-! ## The reading method -/

/-- The state in which the reading method starts. -/
def openingStore (names : Names) (bytes : Value) (σ : Store) : Store :=
  { σ with frame := ⟨.undefined, names, [("bytes", some bytes)]⟩ }

theorem eval_isReader {test : Bool} (hRuntime : σ.frame.names.runtime = scope.runtime)
    (hBytes : σ.frame.locals.lookup "bytes" = some (some bytes))
    (h : isReader bytes (some "BinaryReader") = some (.bool test)) :
    eval fuel call
        (.binary (.ident "bytes") "instanceof" (.member (.ident scope.runtime) "BinaryReader")) σ =
      some (.bool test, σ) := by
  have hVariable : eval fuel call (.ident "bytes") σ = some (bytes, σ) := eval_variable hBytes
  rw [eval]
  simp [hVariable, frame_runtime? hRuntime, h]

/-- The reader is the argument, or a new one for the bytes. -/
theorem openReader_run {input : List Record} (hRuntime : names.runtime = scope.runtime)
    (hBytes : (bytes = .reader ∧ σ.input = input) ∨ bytes = .buffer input) :
    ∃ current, exec fuel call
        (.constant "reader" (.conditional
          (.binary (.ident "bytes") "instanceof" (.member (.ident scope.runtime) "BinaryReader"))
          (.ident "bytes")
          (.construct (.member (.ident scope.runtime) "BinaryReader") [.ident "bytes"])))
        (openingStore names bytes σ) =
      some (.next, ⟨⟨.undefined, names, [("reader", some .reader), ("bytes", some bytes)]⟩,
        σ.output, input, current⟩) := by
  let opening : Store :=
    (openingStore names bytes σ).withLocals [("reader", none), ("bytes", some bytes)]
  have hVariable : eval fuel call (.ident "bytes") opening = some (bytes, opening) :=
    eval_variable rfl
  rcases hBytes with ⟨rfl, rfl⟩ | rfl
  · refine ⟨σ.current, exec_constant (τ := openingStore names .reader σ) ?_ rfl⟩
    exact (eval_conditional (eval_isReader (σ := opening) hRuntime rfl rfl) rfl).trans hVariable
  · refine ⟨none,
      exec_constant (τ := (openingStore names (.buffer input) σ).before input) ?_ rfl⟩
    exact (eval_conditional (eval_isReader (σ := opening) hRuntime rfl rfl) rfl).trans
      (eval_newReader (σ := opening) hRuntime hVariable)

/-- The body of the reading method. -/
theorem deserializeBody_run (hPlan : scope.plan m = .ok plan) (legal : m.Legal scope)
    (hRuntime : names.runtime = scope.runtime)
    (hReaches : Reaches scope m names scope.readingVariables)
    (hOwn : ∀ frame : Frame, frame.names = names →
      (∀ pair ∈ frame.locals, pair.1 ∈ readingVariables) →
      LeadsTo frame (.ident plan.name) typeName)
    (hAccess : Accesses scope plan typeName call)
    (hConstruct : ∀ σ, call (.construct typeName []) σ = some (.instance typeName plan.fresh, σ))
    (hCarries : Carries scope plan nested s records back)
    (hNested : ∀ {other v records back}, nested other v records back →
      Reads call other records back)
    (hFuel : (plan.recordsOf scope s records).length < fuel)
    (hBytes : (bytes = .reader ∧ σ.input = plan.recordsOf scope s records) ∨
      bytes = .buffer (plan.recordsOf scope s records)) :
    execAll fuel call (Codec.deserializeBody scope plan)
        (openingStore names bytes σ) =
      some (.give (.instance typeName (plan.restored scope s back)),
        { σ with
          frame := readingFrame names bytes typeName (plan.restored scope s back), input := [],
          current := none }) := by
  obtain ⟨current, hOpen⟩ := @openReader_run scope fuel call names bytes σ _ hRuntime hBytes
  let started (t : Fields) (input : List Record) (current : Option Record) : Store :=
    ⟨readingFrame names bytes typeName t, σ.output, input, current⟩
  have hNew : exec fuel call (.constant "message" (.construct (.ident plan.name) []))
      ⟨⟨.undefined, names, [("reader", some .reader), ("bytes", some bytes)]⟩, σ.output,
        plan.recordsOf scope s records, current⟩ =
      some (.next, started plan.fresh (plan.recordsOf scope s records) current) := by
    refine exec_constant (v := .instance typeName plan.fresh)
      (τ := ⟨⟨.undefined, names, _⟩, σ.output, plan.recordsOf scope s records, current⟩) ?_ rfl
    -- the variable of the message is there already, and must not have the name of the class
    exact (eval_new (hOwn _ rfl (by simp [Store.withLocals, readingVariables])) values_nil).trans
      (hConstruct _)
  have hNodup : ((plan.properties.filter (·.written scope s)).map Property.number).Nodup :=
    (nodup_numbers hPlan legal.numbers).sublist (List.filter_sublist.map _)
  have hAbsorbs : Absorbs (readingFrame names bytes typeName)
      (inBlock (execAll fuel call (readingBody scope plan))) (plan.recordsOf scope s records)
      plan.fresh (plan.restored scope s back) :=
    absorbs_properties hPlan legal hRuntime hReaches hAccess hCarries hNested
      (fun p hp => List.mem_filter.1 hp) hNodup
      (fun p hp _ => fresh_number hPlan legal.numbers (List.mem_filter.1 hp).1)
  have hLoop : exec fuel call (.loop (Codec.reader.method "nextField" []) (readingBody scope plan))
      (started plan.fresh (plan.recordsOf scope s records) current) =
        some (.next, started (plan.restored scope s back) [] none) := by
    rw [exec]
    refine repeatWhile_run (fun t τ hFrame => ?_) hAbsorbs hFuel rfl rfl
    rw [eval_reader_method (frame_reader hFrame)]
    rfl
  rw [Codec.deserializeBody, execAll_cons hOpen, execAll_cons hNew]
  refine (execAll_cons hLoop _).trans ?_
  exact execAll_give (eval_variable rfl)

/-- The class of a type can be read from the wire. -/
abbrev Readable (P : Program) (typeName : String) (scope : Scope) (m : MessageDescriptor) : Prop :=
  Makes P typeName scope m "deserialize" readingVariables scope.readingVariables

/-- **Reading the records of an instance restores its written properties**, both from a reader
and from a buffer. -/
theorem deserialize_run {P : Program} {n : Nat} (hClass : ClassOf P typeName scope m plan)
    (readable : Readable P typeName scope m) (hCarries : Carries scope plan nested s records back)
    (hNested : ∀ {other v records back}, nested other v records back →
      Reads (P.invoke (n + 2)) other records back)
    (hFuel : (plan.recordsOf scope s records).length < n + 2) :
    Reads (P.invoke (n + 3)) typeName (plan.recordsOf scope s records)
        (.instance typeName (plan.restored scope s back)) ∧
      ∀ σ, P.invoke (n + 3)
          (.static typeName "deserialize" [.buffer (plan.recordsOf scope s records)]) σ =
        some (.instance typeName (plan.restored scope s back), σ.before []) := by
  have hConstruct : ∀ σ, P.invoke (n + 2) (.construct typeName []) σ =
      some (.instance typeName plan.fresh, σ) := fun σ =>
    construct_run hClass readable.array (accesses_invoke hClass n)
  have hStatic : ∀ bytes σ, (bytes = .reader ∧ σ.input = plan.recordsOf scope s records) ∨
        bytes = .buffer (plan.recordsOf scope s records) →
      P.invoke (n + 3) (.static typeName "deserialize" [bytes]) σ =
        some (.instance typeName (plan.restored scope s back), σ.before []) := by
    intro bytes σ hBytes
    have hBody : execAll (n + 2) (P.invoke (n + 2)) (Codec.deserializeBody scope plan)
        { σ with frame := ⟨.undefined, namesIn P typeName scope, [("bytes", some bytes)]⟩ } =
      some (.give (.instance typeName (plan.restored scope s back)),
        { σ with
          frame := readingFrame (namesIn P typeName scope) bytes typeName
            (plan.restored scope s back),
          input := [], current := none }) :=
      deserializeBody_run hClass.planned hClass.legal rfl (readable.reaches hClass)
        (fun _ hNames hLocals => readable.leadsTo hClass hNames hLocals)
        (accesses_invoke hClass (n + 1)) hConstruct hCarries hNested hFuel hBytes
    rw [Program.invoke]
    simp [Program.answer, names?_eq hClass, readable.static?_eq hClass, method?_deserialize,
      runBody, inFrame, bindParams, bindTo, declare, Param.typed, bodyValue, Store.withLocals,
      hBody, Store.before]
  exact ⟨fun σ hInput => hStatic _ σ (Or.inl ⟨rfl, hInput⟩),
    fun σ => hStatic _ σ (Or.inr rfl)⟩

/-! ## A name that is taken -/

/-- What is no reader and no buffer cannot be read from. -/
theorem openReader_none (hRuntime : names.runtime = scope.runtime)
    (hOther : isReader bytes (some "BinaryReader") = none) :
    exec fuel call
        (.constant "reader" (.conditional
          (.binary (.ident "bytes") "instanceof" (.member (.ident scope.runtime) "BinaryReader"))
          (.ident "bytes")
          (.construct (.member (.ident scope.runtime) "BinaryReader") [.ident "bytes"])))
        (openingStore names bytes σ) = none := by
  let opening : Store :=
    (openingStore names bytes σ).withLocals [("reader", none), ("bytes", some bytes)]
  have hVariable : eval fuel call (.ident "bytes") opening = some (bytes, opening) :=
    eval_variable rfl
  have hTest : eval fuel call
      (.binary (.ident "bytes") "instanceof" (.member (.ident scope.runtime) "BinaryReader"))
      opening = none := by
    have hFrame : opening.frame.names.runtime = scope.runtime := hRuntime
    rw [eval]
    simp [hVariable, frame_runtime? hFrame, hOther]
  refine exec_constant_none ?_
  rw [eval, bind_run]
  exact congrArg (Option.bind · _) hTest

/-- The reading method fails where it has a variable of the name of the class. -/
theorem deserializeBody_taken (hRuntime : names.runtime = scope.runtime)
    (hTaken : plan.name ∈ readingVariables) :
    execAll fuel call (Codec.deserializeBody scope plan) (openingStore names bytes σ) = none := by
  cases hKind : isReader bytes (some "BinaryReader") with
  | none =>
      rw [Codec.deserializeBody, execAll, bind_run, openReader_none hRuntime hKind]
      rfl
  | some test =>
      obtain ⟨input, hBytes⟩ :
          ∃ input, (bytes = .reader ∧ σ.input = input) ∨ bytes = .buffer input := by
        cases bytes with
        | reader => exact ⟨σ.input, Or.inl ⟨rfl, rfl⟩⟩
        | buffer input => exact ⟨input, Or.inr rfl⟩
        | _ => cases hKind
      obtain ⟨current, hOpen⟩ := @openReader_run scope fuel call names bytes σ _ hRuntime hBytes
      have hName : plan.name = "message" ∨ plan.name = "reader" ∨ plan.name = "bytes" := by
        simpa [readingVariables] using hTaken
      -- the variable of the name of the class hides the class where it is constructed
      rw [Codec.deserializeBody, execAll_cons hOpen, execAll, bind_run, Stmt.constant,
        exec_constant_none (eval_new_variable ?_ _)]
      · rfl
      · rcases hName with h | h | h <;> rw [h] <;> rfl

/-- **A class that has the name of a variable of its reading method is never read.** -/
theorem deserialize_taken {P : Program} (hClass : ClassOf P typeName scope m plan)
    (hTaken : m.name ∈ readingVariables) (n : Nat) (arguments : List Value) :
    P.invoke n (.static typeName "deserialize" arguments) σ = none := by
  cases n with
  | zero => rfl
  | succ n =>
      have hMethod : (P.members? typeName).bind (method? · true "deserialize") = some
          ([.typed "bytes" (.union [Codec.bytesType, Codec.readerType scope])],
            Codec.deserializeBody scope plan) := by
        rw [members?_eq hClass, Option.bind_some, method?_deserialize]
      exact invoke_static_none (names?_eq hClass) hMethod (fun bytes =>
        deserializeBody_taken rfl (by rwa [Scope.plan_name hClass.planned])) arguments

/-! ## What the restored fields hold -/

/-- Two properties of one oneof. -/
def Property.Beside (p q : Property) : Prop := p.slot.oneof ≠ none ∧ q.slot.oneof = p.slot.oneof

/-- A later member of the oneof of a property is written. -/
def Plan.Replaced (scope : Scope) (plan : Plan) (s : Fields) (p : Property) : Prop :=
  ∃ before after, plan.properties = before ++ p :: after ∧
    ∃ q ∈ after, p.Beside q ∧ q.written scope s

section Order

variable (hPlan : scope.plan m = .ok plan) (legal : m.Legal scope) {q : Property}
  (hq : q ∈ plan.properties)

include hPlan legal hq

/-- Values that are stored outside the oneof of a property leave it alone. -/
theorem foldl_stored_outside :
    ∀ {ps : List Property} {t : Fields}, (∀ p ∈ ps, p ∈ plan.properties) → q ∉ ps →
      (∀ p ∈ ps, ¬ q.Beside p) →
      ps.foldl (fun t p => plan.stored p (back p) t) t q.number = t q.number
  | [], _, _, _, _ => rfl
  | p :: ps, t, hMem, hNew, hOutside => by
      obtain ⟨hp, hRest⟩ := List.forall_mem_cons.1 hMem
      obtain ⟨hFirstOutside, hRestOutside⟩ := List.forall_mem_cons.1 hOutside
      rw [List.mem_cons, not_or] at hNew
      have hDifferent : q.number ≠ p.number := fun h =>
        hNew.1 (eq_of_number_eq hPlan legal.numbers hq hp h)
      rw [List.foldl_cons, foldl_stored_outside hRest hNew.2 hRestOutside,
        stored_number hPlan legal.numbers legal.oneofs hp hq, if_neg hDifferent, if_neg]
      rintro ⟨hOneof, hSame⟩
      exact hFirstOutside ⟨fun h => hOneof (hSame.symm.trans h), hSame.symm⟩

/-- A field that holds nothing is not filled by other properties. -/
theorem foldl_stored_none :
    ∀ {ps : List Property} {t : Fields}, (∀ p ∈ ps, p ∈ plan.properties) → q ∉ ps →
      t q.number = none → ps.foldl (fun t p => plan.stored p (back p) t) t q.number = none
  | [], _, _, _, hNone => hNone
  | p :: ps, t, hMem, hNew, hNone => by
      obtain ⟨hp, hRest⟩ := List.forall_mem_cons.1 hMem
      rw [List.mem_cons, not_or] at hNew
      have hDifferent : q.number ≠ p.number := fun h =>
        hNew.1 (eq_of_number_eq hPlan legal.numbers hq hp h)
      rw [List.foldl_cons]
      refine foldl_stored_none hRest hNew.2 ?_
      rw [stored_number hPlan legal.numbers legal.oneofs hp hq, if_neg hDifferent, hNone, ite_self]

omit hq in
/-- In the order of the properties, what comes after a property is another property. -/
theorem after_property {before after : List Property}
    (hSplit : plan.properties = before ++ q :: after) :
    q ∉ after ∧ ∀ p ∈ after, p ∈ plan.properties := by
  have hNodup := (nodup_numbers hPlan legal.numbers).of_map
  rw [hSplit] at hNodup ⊢
  refine ⟨(List.nodup_cons.1 (List.nodup_append.1 hNodup).2.1).1, fun p hp => ?_⟩
  exact List.mem_append_right _ (List.mem_cons_of_mem _ hp)

/-- A written property that is not replaced holds what was read back for it. -/
theorem restored_kept (hWritten : q.written scope s) (hKept : ¬ plan.Replaced scope s q) :
    plan.restored scope s back q.number = (back q).populated := by
  obtain ⟨before, after, hSplit⟩ := List.append_of_mem hq
  obtain ⟨hNew, hAfter⟩ := after_property hPlan legal hSplit
  have hHead : (q :: after).filter (·.written scope s) = q :: after.filter (·.written scope s) :=
    List.filter_cons_of_pos hWritten
  rw [Plan.restored, hSplit, List.filter_append, hHead, List.foldl_append, List.foldl_cons]
  rw [foldl_stored_outside hPlan legal hq, stored_number hPlan legal.numbers legal.oneofs hq hq,
    if_pos rfl]
  · exact fun p hp => hAfter p (List.mem_filter.1 hp).1
  · exact fun h => hNew (List.mem_filter.1 h).1
  · intro p hp hBeside
    obtain ⟨hpAfter, hpWritten⟩ := List.mem_filter.1 hp
    exact hKept ⟨before, after, hSplit, p, hpAfter, hBeside, hpWritten⟩

/-- A property that is not written or replaced holds what it holds in a new instance. -/
theorem restored_dropped (hDropped : q.written scope s = false ∨ plan.Replaced scope s q) :
    plan.restored scope s back q.number = q.initial := by
  have hFresh := fresh_number hPlan legal.numbers hq
  have hEmpty : q.slot.oneof ≠ none → q.initial = none := by
    intro hOneof
    obtain ⟨hList, hMap⟩ := single_of_oneof hPlan hq legal hOneof
    rw [Property.initial, hList, hMap]
    rfl
  rcases hDropped with hUnwritten | ⟨before, after, hSplit, p, hp, ⟨hOneof, hSame⟩, hWritten⟩
  · have hMem : ∀ p ∈ plan.properties.filter (·.written scope s), p ∈ plan.properties :=
      fun p hp => (List.mem_filter.1 hp).1
    have hNew : q ∉ plan.properties.filter (·.written scope s) := by
      intro h
      rw [(List.mem_filter.1 h).2] at hUnwritten
      cases hUnwritten
    by_cases hOneof : q.slot.oneof = none
    · rw [Plan.restored, foldl_stored_outside hPlan legal hq hMem hNew, hFresh]
      exact fun p _ hBeside => hBeside.1 hOneof
    · rw [hEmpty hOneof] at hFresh ⊢
      exact foldl_stored_none hPlan legal hq hMem hNew hFresh
  · -- the later member clears the field, and nothing after it fills it again
    rw [hEmpty hOneof]
    obtain ⟨hNew, hAfter⟩ := after_property hPlan legal hSplit
    obtain ⟨between, rest, rfl⟩ := List.append_of_mem hp
    have hpMem := hAfter p hp
    have hDifferent : q.number ≠ p.number := fun h => hNew (by
      rw [eq_of_number_eq hPlan legal.numbers hq hpMem h]
      exact hp)
    have hOrder : plan.properties = (before ++ q :: between) ++ p :: rest := by
      rw [hSplit, List.append_assoc, List.cons_append]
    have hCleared : ∀ t, plan.stored p (back p) t q.number = none := by
      intro t
      rw [stored_number hPlan legal.numbers legal.oneofs hpMem hq, if_neg hDifferent,
        if_pos ⟨fun h => hOneof (hSame.symm.trans h), hSame.symm⟩]
    have hHead : (p :: rest).filter (·.written scope s) = p :: rest.filter (·.written scope s) :=
      List.filter_cons_of_pos hWritten
    rw [Plan.restored, hOrder, List.filter_append, hHead, List.foldl_append, List.foldl_cons]
    refine foldl_stored_none hPlan legal hq ?_ ?_ (hCleared _)
    · intro r hr
      exact hAfter r (List.mem_append_right _ (List.mem_cons_of_mem _ (List.mem_filter.1 hr).1))
    · intro h
      exact hNew (List.mem_append_right _ (List.mem_cons_of_mem _ (List.mem_filter.1 h).1))

end Order

end Restoring

end Protoscribe

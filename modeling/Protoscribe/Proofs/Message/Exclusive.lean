import Protoscribe.Proofs.Message.Accessors
import Protoscribe.Proofs.Message.Lookup

set_option autoImplicit false

/-! # At most one member of a oneof is set

An object is changed by its setters, one after the other. Main statement: `oneof_exclusive`, after
any number of calls of setters at most one member of a oneof is populated, the getter of the oneof
names the member that was set last, and setting a property outside the oneof changes no member.

The invariant of a run is that the member set last, and no other member, is populated (`Tracks`);
one setter preserves it (`tracks_stored`), and so does a run (`runSetters_tracks`).
-/

namespace Protoscribe

open TypeScript Evaluation

/-! ## Runs of setters -/

/-- The member of a oneof that is set last, after a run of setters and a member set before. -/
def lastSet (index : Nat) (before : Option Property) : List (Property × Value) → Option Property
  | [] => before
  | (p, _) :: rest => lastSet index (if p.slot.oneof = some index then some p else before) rest

section Runs

variable (scope : Scope) (plan : Plan) (fuel : Nat) (call : Invocation → M Value) (names : Names)

/-- The object after calls of emitted setters, one after the other. -/
def runSetters : List (Property × Value) → Value → M Value
  | [], object => return object
  | (p, value) :: rest, object => do
    runSetters rest (← setMember fuel call names (Access.setter scope plan p) object value)

end Runs

variable {scope : Scope} {plan : Plan} {fuel : Nat} {call : Invocation → M Value} {names : Names}
  {σ : Store} {typeName : String}

/-- Of a oneof the member set last is populated, and no other one. -/
def Tracks (plan : Plan) (index : Nat) (last : Option Property) (s : Fields) : Prop :=
  ∀ q ∈ plan.group index, (s q.number).isSome ↔ last = some q

section Invariant

variable {m : MessageDescriptor} (hPlan : scope.plan m = .ok plan) (distinct : m.DistinctNumbers)
  (inRange : m.OneofsInRange)

include hPlan distinct inRange

/-- **One setter keeps track of the member set last.** -/
theorem tracks_stored {p : Property} (hp : p ∈ plan.properties) {value : Value}
    (hValue : value.isMissing = false) {index : Nat} {last : Option Property} {s : Fields}
    (h : Tracks plan index last s) :
    Tracks plan index (if p.slot.oneof = some index then some p else last)
      (plan.stored p value s) := by
  intro q hq
  by_cases hIndex : p.slot.oneof = some index
  · obtain ⟨hqMem, hqOneof⟩ := mem_group.1 hq
    rw [if_pos hIndex, stored_number hPlan distinct inRange hp hqMem]
    by_cases hSame : q.number = p.number
    · simp [eq_of_number_eq hPlan distinct hqMem hp hSame, Value.populated, hValue]
    · have hDifferent : p ≠ q := fun h => hSame (by rw [h])
      simp [hSame, hDifferent, hIndex, hqOneof]
  · rw [if_neg hIndex, stored_outside hPlan distinct inRange hp hIndex hq]
    exact h q hq

theorem runSetters_tracks (hRuntime : names.runtime = scope.runtime) {index : Nat} :
    ∀ (calls : List (Property × Value)) {last : Option Property} {s : Fields},
      (∀ c ∈ calls, c.1 ∈ plan.properties ∧ c.2.isMissing = false) → Tracks plan index last s →
      ∃ t, runSetters scope plan fuel call names calls (.instance typeName s) σ =
          some (.instance typeName t, σ) ∧ Tracks plan index (lastSet index last calls) t
  | [], _, s, _, h => ⟨s, rfl, h⟩
  | (p, value) :: rest, last, s, hCalls, h => by
      obtain ⟨⟨hp, hValue⟩, hRest⟩ := List.forall_mem_cons.1 hCalls
      obtain ⟨t, hRun, hTracks⟩ := runSetters_tracks hRuntime rest hRest
        (tracks_stored hPlan distinct inRange hp hValue h)
      refine ⟨t, ?_, hTracks⟩
      rw [runSetters, bind_run, setter_run hRuntime, Option.bind_some, hRun]

end Invariant

/-- The member that is populated, or zero where none is. -/
theorem caseOf_tracks {index : Nat} {last : Option Property} {s : Fields}
    (h : Tracks plan index last s) (hLast : ∀ p, last = some p → p ∈ plan.group index) :
    s.caseOf ((plan.group index).map Property.number) = (last.map Property.number).getD 0 := by
  rw [Fields.caseOf]
  cases hFound : ((plan.group index).map Property.number).find? fun n => (s n).isSome with
  | none =>
      cases last with
      | none => rfl
      | some p =>
          have hp := hLast p rfl
          have hEmpty := List.find?_eq_none.1 hFound _ (List.mem_map.2 ⟨p, hp, rfl⟩)
          exact absurd ((h p hp).2 rfl) hEmpty
  | some n =>
      obtain ⟨q, hq, rfl⟩ := List.mem_map.1 (List.mem_of_find?_eq_some hFound)
      rw [(h q hq).1 (by simpa using List.find?_some hFound)]
      rfl

/-! ## Exclusivity -/

section Exclusive

variable {m : MessageDescriptor} {decls : List Decl}

theorem lastSet_mem (hPlan : scope.plan m = .ok plan) {index : Nat} :
    ∀ {calls : List (Property × Value)} {before : Option Property} {p : Property},
      (∀ c ∈ calls, c.1 ∈ plan.properties) → (∀ p, before = some p → p ∈ plan.group index) →
      lastSet index before calls = some p → p ∈ plan.group index
  | [], _, p, _, hBefore, h => hBefore p h
  | (q, _) :: rest, before, p, hCalls, hBefore, h => by
      obtain ⟨hq, hRest⟩ := List.forall_mem_cons.1 hCalls
      refine lastSet_mem hPlan hRest ?_ h
      intro r hr
      split at hr
      · obtain rfl := Option.some.inj hr
        exact mem_group.2 ⟨hq, ‹_›⟩
      · exact hBefore r hr

/-- **At most one member of a oneof is ever set.** After every sequence of calls of the emitted
setters on a fresh instance, at most one member of the oneof is populated, the emitted getter of
the oneof gives the name of the member that was set last, or `none`, and setting a property
outside the oneof changes no member. -/
theorem oneof_exclusive (generated : scope.messageDecls m = .ok decls)
    (distinct : m.DistinctNumbers) (positive : ∀ f ∈ m.fields, 0 < f.number)
    (inRange : m.OneofsInRange) {reach : List String → Meaning} :
    let names : Names := ⟨scope.runtime, reach⟩
    ∃ plan inner, scope.plan m = .ok plan ∧ decls = plan.decl scope :: inner ∧
      (∀ p ∈ plan.properties, Access.setter scope plan p ∈ plan.members scope) ∧
      ∀ index name, plan.oneofs[index]? = some name →
        Access.caseGetter scope plan index name ∈ plan.members scope ∧
        ∀ calls : List (Property × Value),
          (∀ c ∈ calls, c.1 ∈ plan.properties ∧ c.2.isMissing = false) →
          ∃ s, runSetters scope plan fuel call names calls (.instance typeName fun _ => none) σ =
              some (.instance typeName s, σ) ∧
            (∀ p ∈ plan.group index, ∀ q ∈ plan.group index,
              (s p.number).isSome → (s q.number).isSome → p = q) ∧
            getMember fuel call names (Access.caseGetter scope plan index name)
                (.instance typeName s) σ =
              some (.string (((lastSet index none calls).map Property.name).getD "none"), σ) ∧
            ∀ p ∈ plan.properties, p.slot.oneof ≠ some index → ∀ value : Value,
              ∃ t, setMember fuel call names (Access.setter scope plan p) (.instance typeName s)
                  value σ = some (.instance typeName t, σ) ∧
                ∀ q ∈ plan.group index, t q.number = s q.number := by
  intro names
  have hRuntime : names.runtime = scope.runtime := rfl
  obtain ⟨plan, inner, hPlan, -, rfl⟩ := Scope.messageDecls_eq_ok.1 generated
  refine ⟨plan, _, hPlan, rfl, ?_, ?_⟩
  · intro p hp
    have hAccessor : Access.setter scope plan p ∈ Access.accessors scope plan :=
      List.mem_flatMap.2 ⟨p, hp, by simp⟩
    simp [Plan.members, hAccessor]
  intro index name hName
  refine ⟨?_, ?_⟩
  · have hGetter : Access.caseGetter scope plan index name ∈ Access.caseGetters scope plan := by
      obtain ⟨hIndex, rfl⟩ := List.getElem?_eq_some_iff.1 hName
      exact List.mem_mapIdx.2 ⟨index, hIndex, rfl⟩
    simp [Plan.members, hGetter]
  intro calls hCalls
  have hFresh : Tracks plan index none fun _ => none := by simp [Tracks]
  obtain ⟨s, hRun, hTracks⟩ : ∃ s, runSetters scope plan fuel call names calls
      (.instance typeName fun _ => none) σ = some (.instance typeName s, σ) ∧
        Tracks plan index (lastSet index none calls) s :=
    runSetters_tracks hPlan distinct inRange hRuntime calls hCalls hFresh
  have hLast : ∀ p, lastSet index none calls = some p → p ∈ plan.group index := fun p =>
    lastSet_mem hPlan (fun c hc => (hCalls c hc).1) (by simp)
  refine ⟨s, hRun, ?_, ?_, ?_⟩
  · intro p hp q hq hpSet hqSet
    exact Option.some.inj (((hTracks p hp).1 hpSet).symm.trans ((hTracks q hq).1 hqSet))
  · apply caseGetter_run hRuntime
    rw [caseOf_tracks hTracks hLast]
    cases hSet : lastSet index none calls with
    | none => rfl
    | some p =>
        obtain ⟨hp, -⟩ := mem_group.1 (hLast p hSet)
        have hNumber : p.number ≠ 0 := by
          have hPositive : 0 < p.number := positive _ (property_of_plan hPlan hp).1
          omega
        have hFound : (plan.group index).find? (·.number = p.number) = some p :=
          find?_eq_some_of_only (hLast p hSet) (by simp) fun q hq hSame =>
            eq_of_number_eq hPlan distinct (mem_group.1 hq).1 hp (by simpa using hSame)
        simp only [Option.map_some, Option.getD_some]
        rw [lookup_caseEntries _ hNumber, hFound]
        rfl
  · intro p hp hOutside value
    exact ⟨_, setter_run hRuntime p value s,
      fun q hq => stored_outside hPlan distinct inRange hp hOutside hq value s⟩

/-- A message with a oneof of a number and a text. -/
def choice : MessageDescriptor :=
  ⟨some "Choice",
    [⟨some "number", some 1, .optional, some 5, none, "", some 0, false, false, false⟩,
      ⟨some "text", some 2, .optional, some 9, none, "", some 0, false, false, false⟩],
    [], [], ["kind"], false⟩

/-- The scope of a file that declares nothing. -/
def bareScope : Scope := .ofFile .empty .blank

theorem oneof_exclusive_choice :
    ∃ plan calls s, bareScope.plan choice = .ok plan ∧ calls.length = 2 ∧
      runSetters bareScope plan 0 (fun _ => failure) ⟨"pb_1", fun _ => .other⟩ calls
        (.instance ".Choice" fun _ => none) .empty = some (.instance ".Choice" s, .empty) ∧
      getMember 0 (fun _ => failure) ⟨"pb_1", fun _ => .other⟩
        (Access.caseGetter bareScope plan 0 "kind") (.instance ".Choice" s) .empty =
          some (.string "text", .empty) := by
  have hDistinct : choice.DistinctNumbers := by
    rw [MessageDescriptor.DistinctNumbers]
    decide
  have hInRange : choice.OneofsInRange := by
    rw [MessageDescriptor.OneofsInRange]
    decide
  obtain ⟨plan, inner, hPlan, -, -, h⟩ := @oneof_exclusive bareScope 0 (fun _ => failure) .empty
    ".Choice" choice _ rfl hDistinct (by decide) hInRange fun _ => .other
  have hKnown : bareScope.plan choice = .ok _ := rfl
  obtain rfl := Except.ok.inj (hPlan.symm.trans hKnown)
  obtain ⟨-, hRuns⟩ := h 0 "kind" rfl
  obtain ⟨s, hRun, -, hGetter, -⟩ := hRuns
    [(⟨_, .named "number", .scalar false false "Int32" "Int32"⟩, .int 1),
      (⟨_, .named "string", .scalar false false "String" "String"⟩, .string "x")]
    (List.forall_mem_cons.2 ⟨⟨List.mem_cons_self, rfl⟩, List.forall_mem_cons.2
      ⟨⟨List.mem_cons_of_mem _ List.mem_cons_self, rfl⟩, by simp⟩⟩)
  exact ⟨_, _, s, hPlan, rfl, hRun, hGetter⟩

end Exclusive

end Protoscribe

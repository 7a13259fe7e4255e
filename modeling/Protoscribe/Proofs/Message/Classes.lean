import Protoscribe.Proofs.Message.Accessors
import Protoscribe.Proofs.Message.Contents
import Protoscribe.Proofs.Message.References

set_option autoImplicit false

/-! # The classes of a program

The class of a type stands at the site of the type, and the members that run are those that are
emitted for its message (`members?_eq`). Where the message is legal, the runtime goes by its
identifier and the names of the language are not taken (`ClassOf`), getters and setters answer as
the plan says, whatever the bound on nested calls is (`accesses_invoke`).
-/

namespace Protoscribe

open TypeScript Evaluation

/-! ## Classes -/

/-- The type of the message that a field holds, once, in a list or as the value of a map. -/
def Scope.messageType? (scope : Scope) (f : FieldDescriptor) : Option String :=
  match scope.mapOf? f with
  | some entry => if entry.value.isMessage then some entry.value.typeName else none
  | none => if f.isMessage then some f.typeName else none

/-- What maps are made and read with. -/
def mapGlobals : List String := ["Array", "Map", "Number", "Object"]

/-- The names that a class takes from the language are those of the language: `undefined`, and
where there are maps, what maps are made and read with. -/
structure Scope.Globals (scope : Scope) (m : MessageDescriptor) (reach : List String → Meaning) :
    Prop where
  undefined : reach ["undefined"] = .global
  maps : (∃ f ∈ m.fields, (scope.mapOf? f).isSome) →
    ∀ name ∈ mapGlobals, reach [name] = .global

/-- How the names in the class of a type are read. -/
def namesIn (P : Program) (typeName : String) (scope : Scope) : Names :=
  ⟨scope.runtime, P.reach typeName⟩

/-- The class of a type in a program: where it comes from and its plan. The message is legal, what
the getters name is there, and in the class the runtime and the names of the language mean what they
are written for. -/
structure ClassOf (P : Program) (typeName : String) (scope : Scope) (m : MessageDescriptor)
    (plan : Plan) : Prop where
  source : P.source? typeName = some (scope, m)
  planned : scope.plan m = .ok plan
  legal : m.Legal scope
  named : ∀ p ∈ plan.properties, p.resolves scope (namesIn P typeName scope)
  runtime : (P.names? typeName).isSome
  globals : scope.Globals m (P.reach typeName)

section Classes

variable {P : Program} {typeName : String} {scope : Scope} {m : MessageDescriptor} {plan : Plan}

/-- The site of a class. -/
theorem exists_site (hSource : P.source? typeName = some (scope, m)) :
    ∃ site, P.site? typeName = some site ∧ site.file.scope P.registry = scope ∧
      site.message = m := by
  obtain ⟨site, hSite, hPair⟩ := Option.map_eq_some_iff.1 hSource
  obtain ⟨hScope, hMessage⟩ := Prod.mk.inj hPair
  exact ⟨site, hSite, hScope, hMessage⟩

/-- A class is generated from a message that a file of the program declares. -/
theorem exists_declared (hSource : P.source? typeName = some (scope, m)) :
    ∃ file ∈ P.files, ∃ path, ⟨path, .message m⟩ ∈ file.declarations ∧
      Declaration.typeName (Registry.fileScope file) ⟨path, .message m⟩ = typeName ∧
      scope = file.scope P.registry := by
  obtain ⟨site, hSite, rfl, rfl⟩ := exists_site hSource
  have stands := Program.stands_of_site? hSite
  exact ⟨site.file, stands.file, site.path, stands.declared, stands.name, rfl⟩

theorem names?_eq (hClass : ClassOf P typeName scope m plan) :
    P.names? typeName = some (namesIn P typeName scope) := by
  obtain ⟨names, hNames⟩ := Option.isSome_iff_exists.1 hClass.runtime
  obtain ⟨identifier, hRuntime, hPair⟩ := Option.bind_eq_some_iff.1 hNames
  obtain ⟨site, hSite, hRuntime⟩ := Option.bind_eq_some_iff.1 hRuntime
  obtain ⟨rfl, -⟩ := Program.runtime?_eq_some (Program.stands_of_site? hSite) hRuntime
  obtain ⟨site, -, rfl, -⟩ := exists_site hClass.source
  rw [hNames, ← hPair, namesIn, FileDescriptor.scope_runtime]
  rfl

/-- The runtime goes by the same identifier in every class. -/
theorem runtime_eq (hClass : ClassOf P typeName scope m plan) : scope.runtime = "pb_1" := by
  obtain ⟨site, -, rfl, -⟩ := exists_site hClass.source
  exact FileDescriptor.scope_runtime _ _

/-- **The members of a class are those emitted for its message.** -/
theorem members?_eq (hClass : ClassOf P typeName scope m plan) :
    P.members? typeName = some (plan.members scope) := by
  obtain ⟨site, hSite, rfl, rfl⟩ := exists_site hClass.source
  obtain ⟨plan', hPlan, hFound⟩ := Program.class_at_site (Program.stands_of_site? hSite)
  obtain rfl : plan = plan' := Except.ok.inj (hClass.planned.symm.trans hPlan)
  rw [Program.members?, hSite, Option.bind_eq_bind, Option.bind_some, hFound]
  rfl

/-- In a class, the name of the class reaches the class. -/
theorem reach_name (hClass : ClassOf P typeName scope m plan) :
    (namesIn P typeName scope).reach [plan.name] = .message typeName := by
  obtain ⟨site, hSite, -, rfl⟩ := exists_site hClass.source
  rw [Scope.plan_name hClass.planned]
  exact Program.reach_own hSite

/-- Where a plan has maps, the names that maps are made and read with are those of the language. -/
def Plan.MakesMaps (plan : Plan) (names : Names) : Prop :=
  ∀ p ∈ plan.properties, p.isMap → ∀ name ∈ mapGlobals, names.reach [name] = .global

theorem makesMaps (hClass : ClassOf P typeName scope m plan) :
    plan.MakesMaps (namesIn P typeName scope) := by
  intro p hp hIsMap
  obtain ⟨key, value, hContent⟩ := Property.isMap_iff.1 hIsMap
  obtain ⟨-, -, ⟨entry, hEntry, -⟩, -⟩ :=
    map_content hClass.planned hp hClass.legal hContent
  exact hClass.globals.maps ⟨_, (property_of_plan hClass.planned hp).1, by rw [hEntry]; rfl⟩

/-- The type of the messages in a property that holds one or a list of them. -/
theorem messageType?_of_message (hPlan : scope.plan m = .ok plan) (legal : m.Legal scope)
    {p : Property} (hp : p ∈ plan.properties) {other write : String} {repeated : Bool}
    (content : p.content = .message other repeated write) :
    scope.messageType? p.slot.descriptor = some other := by
  obtain ⟨-, hNone, hMessage, rfl, -⟩ := message_content hPlan hp legal content
  rw [Scope.messageType?, hNone]
  exact if_pos hMessage

/-- The type of the messages in a property that holds a map of them. -/
theorem messageType?_of_map (hPlan : scope.plan m = .ok plan) (legal : m.Legal scope)
    {p : Property} (hp : p ∈ plan.properties) {key value : MapSide}
    (content : p.content = .map key value) (hMessage : value.descriptor.isMessage) :
    scope.messageType? p.slot.descriptor = some value.descriptor.typeName := by
  obtain ⟨-, -, ⟨entry, hEntry, hValue⟩, -⟩ := map_content hPlan hp legal content
  simp only [Scope.messageType?, hEntry, hValue, hMessage, if_true]

/-! ## Paths to classes -/

/-- In some names, a path leads to the class of a type past the variables around it. -/
structure Evaluation.Names.Leads (names : Names) (taken path : List String)
    (typeName : String) : Prop where
  reached : names.reach path = .message typeName
  free : ∀ first ∈ path.head?, first ≠ names.runtime ∧ first ∉ taken

/-- A name is free where only other names are taken. -/
theorem lookup_of_taken {frame : Frame} {taken : List String} {name : String}
    (hLocals : ∀ pair ∈ frame.locals, pair.1 ∈ taken) (hName : name ∉ taken) :
    frame.locals.lookup name = none := by
  rw [List.lookup_eq_none_iff]
  intro pair hPair
  exact bne_iff_ne.2 fun hSame => hName (hSame ▸ hLocals pair hPair)

/-- An expression leads to a class in a frame whose variables are among those around it. -/
theorem leadsTo_of_leads {frame : Frame} {e : Expr} {taken path : List String}
    (hPath : path? e = some path) (h : frame.names.Leads taken path typeName)
    (hLocals : ∀ pair ∈ frame.locals, pair.1 ∈ taken) : LeadsTo frame e typeName := by
  obtain ⟨first, rest, rfl⟩ := List.exists_cons_of_ne_nil (path?_ne_nil hPath)
  obtain ⟨hRuntime, hTaken⟩ := h.free first rfl
  exact ⟨frame_runtime?_of_ne hPath hRuntime, _,
    frame_path?_of_free hPath (lookup_of_taken hLocals hTaken), h.reached⟩

/-- The reference to a type leads to the class of the type. -/
theorem leadsTo_valueRef {frame : Frame} {other : String} {taken : List String}
    (h : frame.names.Leads taken (Text.segments '.' (scope.path other)) other)
    (hLocals : ∀ pair ∈ frame.locals, pair.1 ∈ taken) :
    LeadsTo frame (scope.valueRef other) other :=
  leadsTo_of_leads (path?_memberChain _) h hLocals

/-- The path of every message type that a field holds leads to the class of the type, past the
variables around it. -/
def Reaches (scope : Scope) (m : MessageDescriptor) (names : Names)
    (taken : FieldDescriptor → List String) : Prop :=
  ∀ f ∈ m.fields, ∀ other, scope.messageType? f = some other →
    names.Leads (taken f) (Text.segments '.' (scope.path other)) other

/-- In a class, only variables stand in the way of a path that reaches another class. -/
theorem leads_of_reach (hClass : ClassOf P typeName scope m plan) {taken path : List String}
    {other : String} (hReach : P.reach typeName path = .message other)
    (hFree : ∀ first ∈ path.head?, first ∉ taken) :
    (namesIn P typeName scope).Leads taken path other := by
  refine ⟨hReach, fun first hFirst => ⟨?_, hFree first hFirst⟩⟩
  rintro rfl
  obtain ⟨rest, rfl⟩ : ∃ rest, path = (namesIn P typeName scope).runtime :: rest := by
    cases path with
    | nil => cases hFirst
    | cons first rest => exact ⟨rest, by rw [Option.some.inj hFirst]⟩
  have hRuntime := Program.reach_runtime (names?_eq hClass) rest
  rw [namesIn] at hRuntime
  cases hRuntime.symm.trans hReach

/-! ## Methods that make instances -/

/-- A static method of the class of a type can make instances: the namespace of the class leaves the
method alone, and in the method the name of the class and the paths of the types of its fields lead
to classes, past the variables around them. -/
structure Makes (P : Program) (typeName : String) (scope : Scope) (m : MessageDescriptor)
    (method : String) (own : List String) (taken : FieldDescriptor → List String) : Prop where
  method : P.overwrites typeName method = false
  array : P.reach typeName ["Array"] = .global
  own : m.name ∉ own
  reached : ∀ f ∈ m.fields, ∀ other, scope.messageType? f = some other →
    P.reach typeName (Text.segments '.' (scope.path other)) = .message other
  free : ∀ f ∈ m.fields, ∀ other, scope.messageType? f = some other →
    ∀ first ∈ (Text.segments '.' (scope.path other)).head?, first ∉ taken f

section Makes

variable {method : String} {own : List String} {taken : FieldDescriptor → List String}

theorem Makes.reaches (makes : Makes P typeName scope m method own taken)
    (hClass : ClassOf P typeName scope m plan) :
    Reaches scope m (namesIn P typeName scope) taken := fun f hf other hOther =>
  leads_of_reach hClass (makes.reached f hf other hOther) (makes.free f hf other hOther)

/-- In the method, the name of the class leads to the class. -/
theorem Makes.leadsTo (makes : Makes P typeName scope m method own taken)
    (hClass : ClassOf P typeName scope m plan) {frame : Frame}
    (hNames : frame.names = namesIn P typeName scope)
    (hLocals : ∀ pair ∈ frame.locals, pair.1 ∈ own) :
    LeadsTo frame (.ident plan.name) typeName := by
  refine leadsTo_of_leads rfl (hNames ▸ leads_of_reach hClass (reach_name hClass) ?_) hLocals
  intro first hFirst
  obtain rfl := Option.some.inj hFirst
  rw [Scope.plan_name hClass.planned]
  exact makes.own

/-- The method is the one of the class. -/
theorem Makes.static?_eq (makes : Makes P typeName scope m method own taken)
    (hClass : ClassOf P typeName scope m plan) :
    P.static? typeName method = method? (plan.members scope) true method := by
  rw [Program.static?, makes.method, members?_eq hClass]
  rfl

end Makes

/-! ## Accessors -/

/-- The accessors of a class answer as its plan says. -/
structure Accesses (scope : Scope) (plan : Plan) (typeName : String)
    (call : Invocation → M Value) : Prop where
  get : ∀ p ∈ plan.properties, ∀ s σ,
    call (.get (.instance typeName s) p.name) σ = some (p.value scope s, σ)
  set : ∀ p ∈ plan.properties, ∀ s value σ,
    call (.set (.instance typeName s) p.name value) σ =
      some (.instance typeName (plan.stored p value s), σ)
  slot : ∀ p ∈ plan.properties, p.isMap → ∀ s σ,
    call (.slot (.instance typeName s) p.name) σ = some (.int p.number, σ)

/-- A property of the object that a member runs on. -/
theorem eval_onThis {fuel : Nat} {call : Invocation → M Value} {s : Fields} {σ : Store}
    (hAccess : Accesses scope plan typeName call) {p : Property} (hp : p ∈ plan.properties)
    (hSelf : σ.frame.self = .instance typeName s) :
    eval fuel call p.onThis σ = some (p.value scope s, σ) := by
  have hThis : eval fuel call .thisRef σ = some (.instance typeName s, σ) := by
    simp [eval, hSelf]
  rw [Property.onThis, eval_member rfl hThis, memberValue, hAccess.get p hp]

/-- An assignment to a property of the object that a member runs on. -/
theorem eval_assignThis {fuel : Nat} {call : Invocation → M Value} {s : Fields} {σ τ : Store}
    (hAccess : Accesses scope plan typeName call) {p : Property} (hp : p ∈ plan.properties)
    {e : Expr} {v : Value} (h : eval fuel call e σ = some (v, τ))
    (hSelf : τ.frame.self = .instance typeName s) :
    eval fuel call (.assign p.onThis e) σ =
      some (v, τ.withSelf (.instance typeName (plan.stored p v s))) := by
  simp [Expr.assign, Property.onThis, eval, h, assign, holder?, hSelf, memberAssigned,
    hAccess.set p hp]

/-- **Getters and setters answer as the plan says**, also when no call may be nested in them. -/
theorem accesses_invoke (hClass : ClassOf P typeName scope m plan) (n : Nat) :
    Accesses scope plan typeName (P.invoke (n + 1)) := by
  have hNames := names?_eq hClass
  have hMembers := members?_eq hClass
  have names := hClass.legal.names
  constructor
  · intro p hp s σ
    have hGet := getter?_property hClass.planned names hp
    have hRun : getMember n (P.invoke n) (namesIn P typeName scope) (Access.getter scope p)
        (.instance typeName s) σ = some (p.value scope s, σ) := getter_run rfl (hClass.named p hp) s
    simp only [getMember, Access.getter, getterBody?] at hRun
    simp [Program.invoke, Program.answer, hNames, hMembers, hGet, hRun]
  · intro p hp s value σ
    have hSet := setter?_property hClass.planned names hp
    have hRun : setMember n (P.invoke n) (namesIn P typeName scope) (Access.setter scope plan p)
        (.instance typeName s) value σ = some (.instance typeName (plan.stored p value s), σ) :=
      setter_run rfl p value s
    simp only [setMember, Access.setter, setterBody?] at hRun
    simp [Program.invoke, Program.answer, hNames, hMembers, hSet, hRun]
  · intro p hp hMap s σ
    have hGet := getter?_property hClass.planned names hp
    have hSlot : slotOf? [.give (.cast (Access.stored scope p) p.type)] = some p.number := by
      obtain ⟨key, value, hContent⟩ := Property.isMap_iff.1 hMap
      simp [Access.stored, hContent, slotOf?, Stmt.give, fieldRead?, Scope.runtimeCall,
        Expr.method, Expr.int]
    simp [Program.invoke, Program.answer, hMembers, hGet, hSlot]

end Classes

end Protoscribe

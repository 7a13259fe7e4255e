import Protoscribe.Proofs.Message.Restoring
import Protoscribe.Proofs.Message.ToPlain

set_option autoImplicit false

/-! # What is made from a plain object

Main statement: `fromObject_run`, an instance made from a plain object holds, for each property that
the object has, the value that the property of the object stands for (`Plan.revived`). The
properties that are always present go through the constructor, the others are assigned afterwards;
`revived_number` says what the fields hold in the end. The class has to be `Revivable`: where it has
the name of a variable of the method, nothing is made (`fromObject_taken`).
-/

namespace Protoscribe

open TypeScript Evaluation

/-- The variables of the method that makes an instance from a plain object. -/
def revivingVariables : List String := ["message", "data"]

/-- The variables around the path of a type in that method: the elements of a list and the entries
of a map have variables of their own. -/
def Scope.revivingVariables (scope : Scope) (f : FieldDescriptor) : List String :=
  match scope.mapOf? f with
  | some _ => "value" :: "key" :: Protoscribe.revivingVariables
  | none =>
    if f.isRepeated then "item" :: Protoscribe.revivingVariables else Protoscribe.revivingVariables

/-- The class of a type can be made from plain objects, and no field is named like something that
every plain object has. -/
structure Revivable (P : Program) (typeName : String) (scope : Scope) (m : MessageDescriptor) : Prop
    extends Makes P typeName scope m "fromObject" revivingVariables scope.revivingVariables where
  names : ∀ f ∈ m.fields, f.name ∉ inheritedNames

/-- A plain object becomes an instance of a type. -/
def Revives (call : Invocation → M Value) : Conversion := fun typeName live plain =>
  ∀ σ, call (.static typeName "fromObject" [plain]) σ = some (live, σ)

section FromPlain

variable {scope : Scope} {m : MessageDescriptor} {plan : Plan} {typeName other : String}
  {fuel : Nat} {call : Invocation → M Value} {names : Names} {t : Fields} {σ : Store}
  {nested : Conversion} {properties : List (String × Value)}

/-! ## Parts -/

theorem eval_fromPlain {e : Expr} {live plain : Value}
    (hLeads : LeadsTo σ.frame (scope.valueRef other) other)
    (hPlain : eval fuel call e σ = some (plain, σ)) (hRevives : Revives call other live plain) :
    eval fuel call (Plain.fromPlain scope other e) σ = some (live, σ) := by
  rw [Plain.fromPlain, eval_static hLeads (values_cons hPlain values_nil), hRevives σ]

/-- A key of a map is read from its text. -/
theorem eval_liveKey {f : FieldDescriptor} {key : Scalar} {text : String} (hKey : f.HoldsKey key)
    (hText : key.keyText = some text)
    (hLookup : σ.frame.locals.lookup "key" = some (some (.string text)))
    (hNumber : IsGlobal σ.frame "Number") :
    eval fuel call (Plain.liveKey f) σ = some (.scalar key, σ) := by
  have hVariable : eval fuel call (.ident "key") σ = some (.string text, σ) :=
    eval_variable hLookup
  rw [FieldDescriptor.HoldsKey] at hKey
  rw [Plain.liveKey]
  by_cases hNumeric : f.type.isNumeric
  · rw [if_pos hNumeric] at hKey ⊢
    obtain ⟨value, rfl⟩ := hKey
    obtain rfl := Option.some.inj hText
    simp [eval, functionCall, hNumber.path?_eq, hNumber.meaning, values_cons hVariable values_nil,
      toNumber, Value.string, Value.int]
  · rw [if_neg hNumeric] at hKey ⊢
    by_cases hBool : f.type = .bool
    · rw [if_pos hBool] at hKey ⊢
      obtain ⟨value, rfl⟩ := hKey
      obtain rfl := Option.some.inj hText
      refine eval_operate (by decide) hVariable rfl ?_
      cases value <;> rfl
    · rw [if_neg hBool] at hKey ⊢
      obtain ⟨text', rfl⟩ := hKey
      obtain rfl := Option.some.inj hText
      exact hVariable

/-- The value of a map entry, from the value that stands for it. -/
theorem eval_liveMapValue {value : MapSide} {live plain : Value}
    (hLeads : value.descriptor.isMessage →
      LeadsTo σ.frame (scope.valueRef value.descriptor.typeName) value.descriptor.typeName)
    (hNested : ∀ {other live plain}, nested other live plain → Revives call other live plain)
    (hConverts : value.Converts nested live plain)
    (hLookup : σ.frame.locals.lookup "value" = some (some plain)) :
    eval fuel call (Plain.liveMapValue scope value.descriptor) σ = some (live, σ) := by
  rw [MapSide.Converts] at hConverts
  rw [Plain.liveMapValue]
  by_cases hMessage : value.descriptor.isMessage
  · rw [if_pos hMessage] at hConverts ⊢
    exact eval_fromPlain (hLeads hMessage) (eval_variable hLookup) (hNested hConverts)
  · rw [if_neg hMessage] at hConverts ⊢
    rw [← hConverts]
    exact eval_variable hLookup

/-! ## Values -/

/-- A map made of entries with distinct keys. -/
theorem mapOf_entries {entries : List Converted.Entry}
    (distinct : (entries.map Converted.Entry.key).Nodup) :
    mapOf (entries.map fun entry => .list [.scalar entry.key, entry.live]) =
      some (.map (entries.map fun entry => (entry.key, entry.live))) := by
  have hEntries : (entries.map fun entry =>
      Value.list [.scalar entry.key, entry.live]).mapM Value.entry? =
        some (entries.map fun entry => (entry.key, entry.live)) := by
    clear distinct
    induction entries with
    | nil => rfl
    | cons entry entries ih => simp [Value.entry?, ih]
  rw [mapOf, hEntries, Option.bind_eq_bind, Option.bind_some, List.foldl_map,
    foldl_insertEntry (by simpa using distinct), List.nil_append]
  rfl

section Map

variable {key value : MapSide} {entries : List Converted.Entry}
  (keys : ∀ entry ∈ entries, key.descriptor.HoldsKey entry.key ∧
    entry.key.keyText = some entry.text)
  (converts : ∀ entry ∈ entries, value.Converts nested entry.live entry.plain)
  (hLeads : value.descriptor.isMessage → σ.frame.names.Leads
    ("value" :: "key" :: revivingVariables)
    (Text.segments '.' (scope.path value.descriptor.typeName)) value.descriptor.typeName)
  (hTaken : ∀ pair ∈ σ.frame.locals, pair.1 ∈ revivingVariables)
  (hGlobals : ∀ name ∈ mapGlobals, σ.frame.names.reach [name] = .global)
  (hNested : ∀ {other live plain}, nested other live plain → Revives call other live plain)
  {e : Expr}
  (hSource : eval fuel call e σ =
    some (.record (entries.map fun entry => (entry.text, entry.plain)), σ))

omit keys converts hLeads hNested hSource in
include hTaken hGlobals in
/-- No variable of the method takes the name of what maps are made with. -/
theorem isGlobal_of_taken {name : String} (hName : name ∈ mapGlobals) : IsGlobal σ.frame name := by
  have hApart : ∀ name ∈ mapGlobals, name ∉ revivingVariables := by decide
  exact ⟨lookup_of_taken hTaken (hApart name hName), hGlobals name hName⟩

include keys converts hLeads hTaken hGlobals hNested hSource

/-- The entries of a map, from the plain object that stands for it. -/
theorem eval_liveEntries :
    eval fuel call (Plain.liveEntries scope key.descriptor value.descriptor e) σ =
      some (.list (entries.map fun entry => .list [.scalar entry.key, entry.live]), σ) := by
  have hEntries : eval fuel call (Expr.method (.ident "Object") "entries" [e]) σ =
      some (.list (entries.map fun entry => .list [.string entry.text, entry.plain]), σ) := by
    refine eval_global (isGlobal_of_taken hTaken hGlobals (by decide))
      (values_cons hSource values_nil) ?_
    simp [globalCall, Function.comp_def]
  rw [Plain.liveEntries]
  by_cases hAsIs : !value.descriptor.isMessage && key.descriptor.type = .string
  · -- texts and values without messages stay as they are
    rw [if_pos hAsIs, hEntries]
    simp only [Bool.and_eq_true, Bool.not_eq_true', decide_eq_true_eq] at hAsIs
    have hSame : entries.map (fun entry => Value.list [.string entry.text, entry.plain]) =
        entries.map fun entry => .list [.scalar entry.key, entry.live] := by
      refine List.map_congr_left fun entry hMem => ?_
      obtain ⟨hKey, hText⟩ := keys entry hMem
      have hConverts := converts entry hMem
      rw [MapSide.Converts, if_neg (by simp [hAsIs.1])] at hConverts
      rw [FieldDescriptor.HoldsKey, hAsIs.2, if_neg (by decide), if_neg (by decide)] at hKey
      obtain ⟨text, hKey⟩ := hKey
      rw [hKey] at hText ⊢
      obtain rfl := Option.some.inj hText
      rw [hConverts]
      rfl
    rw [hSame]
  · rw [if_neg hAsIs]
    refine eval_mapList (isLocal_of_none rfl) hEntries (mapItems_run fun entry hMem => ?_)
    obtain ⟨hKey, hText⟩ := keys entry hMem
    have hNumber : IsGlobal σ.frame "Number" := isGlobal_of_taken hTaken hGlobals (by decide)
    let inner : Store := σ.withLocals (("value", some entry.plain) ::
      ("key", some (.string entry.text)) :: σ.frame.locals)
    have hLocals : ∀ pair ∈ inner.frame.locals, pair.1 ∈ "value" :: "key" :: revivingVariables :=
      List.forall_mem_cons.2 ⟨List.mem_cons_self, List.forall_mem_cons.2
        ⟨List.mem_cons_of_mem _ List.mem_cons_self, fun pair hPair =>
          List.mem_cons_of_mem _ (List.mem_cons_of_mem _ (hTaken pair hPair))⟩⟩
    exact runArg_pair (eval_pair (eval_liveKey (σ := inner) hKey hText rfl
        ⟨hNumber.free, hNumber.meaning⟩)
      (eval_liveMapValue (fun hMessage => leadsTo_valueRef (hLeads hMessage) hLocals) hNested
        (converts entry hMem) rfl))

theorem eval_liveMap (distinct : (entries.map Converted.Entry.key).Nodup) :
    eval fuel call (.construct (.ident "Map")
        [Plain.liveEntries scope key.descriptor value.descriptor e]) σ =
      some (.map (entries.map fun entry => (entry.key, entry.live)), σ) := by
  exact eval_newMapOf (isGlobal_of_taken hTaken hGlobals (by decide))
    (eval_liveEntries keys converts hLeads hTaken hGlobals hNested hSource) (mapOf_entries distinct)

end Map

/-- A call of a function for each element of a list in a plain object. -/
theorem eval_mapData {p : Property} {f : Expr} {items after : List Value}
    (hRuntime : "data" ≠ σ.frame.names.runtime) (hThere : (σ.frame.locals.lookup "data").isSome)
    (hItems : eval fuel call (p.on "data") σ = some (.list items, σ))
    (hMap : mapItems (fun item => runArg fuel call f [item]) items σ = some (after, σ)) :
    eval fuel call ((p.on "data").method "map" [f]) σ = some (.list after, σ) := by
  have hPath : path? (p.on "data") = some ["data", p.name] := rfl
  exact eval_mapList ⟨frame_runtime?_of_ne hPath hRuntime, frame_path?_of_hidden hPath hThere⟩
    hItems hMap

/-- The function that converts an element of a list. -/
theorem runArg_fromPlain {live plain : Value}
    (hLeads : σ.frame.names.Leads ("item" :: revivingVariables)
      (Text.segments '.' (scope.path other)) other)
    (hTaken : ∀ pair ∈ σ.frame.locals, pair.1 ∈ revivingVariables)
    (hRevives : Revives call other live plain) :
    runArg fuel call (.lambda [.bare "item"] (Plain.fromPlain scope other (.ident "item"))) [plain]
        σ = some (live, σ) := by
  have hTo : LeadsTo (σ.withLocals (("item", some plain) :: σ.frame.locals)).frame
      (scope.valueRef other) other :=
    leadsTo_valueRef hLeads (List.forall_mem_cons.2
      ⟨List.mem_cons_self, fun pair hPair => List.mem_cons_of_mem _ (hTaken pair hPair)⟩)
  have hBody : eval fuel call (Plain.fromPlain scope other (.ident "item"))
      (σ.withLocals (("item", some plain) :: σ.frame.locals)) =
        some (live, σ.withLocals ([("item", some plain)] ++ σ.frame.locals)) :=
    eval_fromPlain hTo (eval_variable rfl) hRevives
  rw [Expr.lambda, runArg]
  refine inBlock_run_declared [("item", some plain)] ?_ rfl
  simp only [bindParams, bindTo, Param.bare, declare, bind_run, modify_run, pure_run,
    Option.bind_some]
  exact hBody

/-- The value of a property, from the value that stands for it. -/
theorem eval_liveValue (hPlan : scope.plan m = .ok plan) (legal : m.Legal scope)
    (hReaches : Reaches scope m σ.frame.names scope.revivingVariables)
    (hMaps : plan.MakesMaps σ.frame.names) (hRuntime : "data" ≠ σ.frame.names.runtime)
    (hTaken : ∀ pair ∈ σ.frame.locals, pair.1 ∈ revivingVariables)
    (hThere : (σ.frame.locals.lookup "data").isSome)
    (hNested : ∀ {other live plain}, nested other live plain → Revives call other live plain)
    {p : Property} (hp : p ∈ plan.properties) {live plain : Value}
    (hData : eval fuel call (p.on "data") σ = some (plain, σ))
    (hConverted : Converted nested p live plain) :
    eval fuel call (Plain.liveValue scope p) σ = some (live, σ) := by
  have hField := (property_of_plan hPlan hp).1
  rw [Plain.liveValue]
  cases hConverted with
  | scalar content =>
      rw [content]
      exact hData
  | message content converts =>
      obtain ⟨-, hNone, -⟩ := message_content hPlan hp legal content
      have hLeads := hReaches _ hField _ (messageType?_of_message hPlan legal hp content)
      simp only [Scope.revivingVariables, hNone, message_isRepeated hPlan hp content] at hLeads
      rw [content]
      exact eval_fromPlain (leadsTo_valueRef hLeads hTaken) hData (hNested converts)
  | messages content converts =>
      obtain ⟨-, hNone, -⟩ := message_content hPlan hp legal content
      have hLeads := hReaches _ hField _ (messageType?_of_message hPlan legal hp content)
      simp only [Scope.revivingVariables, hNone, message_isRepeated hPlan hp content] at hLeads
      rw [content]
      exact eval_mapData hRuntime hThere hData (mapItems_run fun item hMem =>
        runArg_fromPlain hLeads hTaken (hNested (converts item hMem)))
  | @map key value entries content keys distinct converts =>
      obtain ⟨-, -, ⟨entry, hEntry, -⟩, -⟩ := map_content hPlan hp legal content
      have hLeads : value.descriptor.isMessage → σ.frame.names.Leads
          ("value" :: "key" :: revivingVariables)
          (Text.segments '.' (scope.path value.descriptor.typeName))
          value.descriptor.typeName := by
        intro hMessage
        have h := hReaches _ hField _ (messageType?_of_map hPlan legal hp content hMessage)
        rwa [Scope.revivingVariables, hEntry] at h
      rw [content]
      exact eval_liveMap keys converts hLeads hTaken
        (hMaps p hp (Property.isMap_iff.2 ⟨key, value, content⟩)) hNested hData distinct

/-! ## Looking up properties -/

theorem eq_of_name_eq (hPlan : scope.plan m = .ok plan) (distinct : m.DistinctNames)
    {p q : Property} (hp : p ∈ plan.properties) (hq : q ∈ plan.properties)
    (hName : p.name = q.name) : p = q :=
  List.inj_on_of_nodup_map (by rw [names_of_plan hPlan]; exact distinct.fields) hp hq hName

/-- The property of a key that only one part has. -/
theorem lookup_mem {α : Type} {key : α → String} {value : α → Value} {a : α} :
    ∀ {as : List α}, (∀ b ∈ as, key b = key a → b = a) → a ∈ as →
      (as.map fun b => (key b, value b)).lookup (key a) = some (value a)
  | [], _, ha => nomatch ha
  | b :: as, hInjective, ha => by
      obtain ⟨hFirst, hRest⟩ := List.forall_mem_cons.1 hInjective
      rw [List.map_cons, List.lookup_cons]
      by_cases hSame : key b = key a
      · simp [hFirst hSame]
      · have hDifferent : a ≠ b := fun h => hSame (by rw [h])
        rw [beq_false_of_ne (Ne.symm hSame)]
        exact lookup_mem hRest (List.mem_of_ne_of_mem hDifferent ha)

theorem lookup_new {α : Type} {key : α → String} {value : α → Value} {name : String} {as : List α}
    (hNew : ∀ a ∈ as, key a ≠ name) : (as.map fun a => (key a, value a)).lookup name = none := by
  rw [List.lookup_eq_none_iff]
  intro pair hPair
  obtain ⟨a, ha, rfl⟩ := List.mem_map.1 hPair
  exact bne_iff_ne.2 (Ne.symm (hNew a ha))

/-! ## The constructor -/

/-- A property of the plain object in a variable. -/
theorem eval_onRecord {p : Property} {holder : String} {v : Value}
    (hHolder : σ.frame.locals.lookup holder = some (some (.record properties)))
    (hProperty : propertyOf properties p.name = some v) :
    eval fuel call (p.on holder) σ = some (v, σ) := by
  rw [Property.on, eval_member_variable hHolder, memberValue, hProperty, lift_some]

/-- A property that is always present is copied, and an optional one is not there. -/
theorem copy_run (hAccess : Accesses scope plan typeName call) {p : Property}
    (hp : p ∈ plan.properties) (hName : p.name ∉ inheritedNames) {back : Property → Value}
    (hLookup : properties.lookup p.name = if p.optional then none else some (back p)) :
    exec fuel call (Instance.copy p) (constructingStore names (.record properties) typeName t σ) =
      some (.next, constructingStore names (.record properties) typeName
        (if p.optional then t else plan.stored p (back p) t) σ) := by
  rw [Instance.copy]
  cases hOptional : p.optional with
  | true =>
      rw [hOptional, if_pos rfl] at hLookup
      -- the record has only what is always present, so the guard of an optional property fails
      have hText : eval fuel call (.string p.name)
          (constructingStore names (.record properties) typeName t σ) =
            some (.string p.name, constructingStore names (.record properties) typeName t σ) := rfl
      have hIn : operate "in" (.string p.name) (.record properties) = some (.bool false) := by
        simp [operate, Value.string, propertyOf_none hLookup hName, hLookup]
      have hGiven : eval fuel call (Instance.isGiven p)
          (constructingStore names (.record properties) typeName t σ) =
            some (.bool false, constructingStore names (.record properties) typeName t σ) := by
        rw [Instance.isGiven, eval_and (eval_operate (by decide) hText eval_data hIn) rfl]
        rfl
      rw [if_pos rfl, if_pos rfl, exec_guarded hGiven rfl]
      rfl
  | false =>
      rw [hOptional, if_neg Bool.false_ne_true] at hLookup
      exact exec_expr (eval_assignThis hAccess hp (eval_onRecord rfl (propertyOf_some hLookup)) rfl)

theorem copies_run (hAccess : Accesses scope plan typeName call) {back : Property → Value} :
    ∀ {ps : List Property} {t : Fields},
      (∀ p ∈ ps, p ∈ plan.properties ∧ p.name ∉ inheritedNames) →
      (∀ p ∈ ps, properties.lookup p.name = if p.optional then none else some (back p)) →
      execAll fuel call (ps.map Instance.copy)
          (constructingStore names (.record properties) typeName t σ) =
        some (.next, constructingStore names (.record properties) typeName
          ((ps.filter (!·.optional)).foldl (fun t p => plan.stored p (back p) t) t) σ)
  | [], _, _, _ => by
      rw [List.map_nil, execAll]
      rfl
  | p :: ps, t, hMem, hLookup => by
      obtain ⟨⟨hp, hName⟩, hRest⟩ := List.forall_mem_cons.1 hMem
      obtain ⟨hFirst, hLookupRest⟩ := List.forall_mem_cons.1 hLookup
      rw [List.map_cons, execAll_cons (copy_run hAccess hp hName hFirst),
        copies_run hAccess hRest hLookupRest]
      cases hOptional : p.optional <;> simp [hOptional]

/-- The fields after the properties that are always present were copied. -/
def Plan.copied (plan : Plan) (back : Property → Value) : Fields :=
  (plan.properties.filter (!·.optional)).foldl (fun t p => plan.stored p (back p) t) plan.lists

/-- The fields of an instance constructed from the properties that are always present. -/
def Plan.built (plan : Plan) (back : Property → Value) : Fields :=
  (plan.properties.filter (·.isMap)).foldl Fields.ensureMap (plan.copied back)

/-- An instance constructed from a record holds what the record has. -/
theorem constructFrom_run {P : Program} {n : Nat} (hClass : ClassOf P typeName scope m plan)
    (revivable : Revivable P typeName scope m)
    (hAccess : Accesses scope plan typeName (P.invoke n)) {back : Property → Value}
    (hThere : ∀ p ∈ plan.properties, p.isMap → ∀ v, plan.copied back p.number = some v →
      v.truth = some true) :
    P.invoke (n + 1) (.construct typeName
        [.record ((plan.properties.filter (!·.optional)).map fun p => (p.name, back p))]) σ =
      some (.instance typeName (plan.built back), σ) := by
  have distinct := hClass.legal.names
  have hLookup : ∀ q ∈ plan.properties,
      ((plan.properties.filter (!·.optional)).map fun p => (p.name, back p)).lookup q.name =
        if q.optional then none else some (back q) := by
    intro q hq
    -- names are distinct, so a property is found exactly when it was put in the record
    have hInjective : ∀ p ∈ plan.properties.filter (!·.optional), p.name = q.name → p = q :=
      fun p hp => eq_of_name_eq hClass.planned distinct (List.mem_filter.1 hp).1 hq
    cases hOptional : q.optional with
    | true =>
        refine lookup_new fun p hp hName => ?_
        have hRequired := (List.mem_filter.1 hp).2
        rw [hInjective p hp hName, hOptional] at hRequired
        cases hRequired
    | false => exact lookup_mem hInjective (List.mem_filter.2 ⟨hq, by rw [hOptional]; rfl⟩)
  have hMem : ∀ p ∈ plan.properties, p ∈ plan.properties ∧ p.name ∉ inheritedNames :=
    fun p hp => ⟨hp, revivable.names _ (property_of_plan hClass.planned hp).1⟩
  refine invoke_construct hClass revivable.array hAccess (Or.inr rfl) rfl ?_ hThere
  rw [exec_guarded (eval_isRecord revivable.array rfl rfl) rfl]
  exact inBlock_run_same (copies_run hAccess hMem hLookup) rfl

/-! ## The method -/

/-- The fields of an instance made from a plain object: those of the constructed instance, and then
the optional properties that the object has. -/
def Plan.revived (plan : Plan) (shown : Property → Bool) (back : Property → Value) : Fields :=
  ((plan.properties.filter (·.optional)).filter shown).foldl
    (fun t p => plan.stored p (back p) t) (plan.built back)

/-- The body of the method that makes an instance. -/
def Plain.fromObjectBody (scope : Scope) (plan : Plan) : List Stmt :=
  .constant "message" (.construct (.ident plan.name) [requiredRecord plan (liveValue scope)])
    :: (optionalAssignments plan "message" isGiven (liveValue scope) ++ [.give (.ident "message")])

/-- The properties of a plain object stand for some values each. -/
structure Describes (plan : Plan) (nested : Conversion) (properties : List (String × Value))
    (shown : Property → Bool) (back plain : Property → Value) : Prop where
  names : ∀ p ∈ plan.properties, p.name ∉ inheritedNames
  required : ∀ p ∈ plan.properties, p.optional = false → shown p
  there : ∀ p ∈ plan.properties, shown p → properties.lookup p.name = some (plain p)
  absent : ∀ p ∈ plan.properties, shown p = false → properties.lookup p.name = none
  present : ∀ p ∈ plan.properties, shown p → (plain p).isMissing = false
  converted : ∀ p ∈ plan.properties, shown p → Converted nested p (back p) (plain p)

/-- The state in which an instance is made from a plain object. -/
def revivingStore (names : Names) (typeName : String) (t : Fields)
    (properties : List (String × Value)) (σ : Store) : Store :=
  { σ with
    frame := ⟨.undefined, names,
      [("message", some (.instance typeName t)), ("data", some (.record properties))]⟩ }

section Method

variable {shown : Property → Bool} {back plain : Property → Value}
  (hPlan : scope.plan m = .ok plan) (legal : m.Legal scope)
  (hReaches : Reaches scope m names scope.revivingVariables) (hMaps : plan.MakesMaps names)
  (hRuntime : "data" ≠ names.runtime)
  (hNested : ∀ {other live plain}, nested other live plain → Revives call other live plain)
  (hAccess : Accesses scope plan typeName call)
  (hDescribes : Describes plan nested properties shown back plain)

omit hPlan legal hReaches hMaps hRuntime hNested hAccess in
include hDescribes in
theorem isGiven_run {p : Property} (hp : p ∈ plan.properties) :
    eval fuel call (Plain.isGiven p) (revivingStore names typeName t properties σ) =
      some (.bool (shown p), revivingStore names typeName t properties σ) := by
  have hData {v : Value} (hProperty : propertyOf properties p.name = some v) :
      eval fuel call (p.on "data") (revivingStore names typeName t properties σ) =
        some (v, revivingStore names typeName t properties σ) := eval_onRecord rfl hProperty
  rw [Plain.isGiven]
  cases hShown : shown p with
  | false =>
      have hData := hData (propertyOf_none (hDescribes.absent p hp hShown) (hDescribes.names p hp))
      by_cases hIsMap : p.isMap
      · rw [if_pos hIsMap]
        exact eval_operate (by decide) (eval_typeOf hData rfl) rfl rfl
      · rw [if_neg hIsMap]
        exact eval_operate (by decide) hData rfl rfl
  | true =>
      have hData := hData (propertyOf_some (hDescribes.there p hp hShown))
      by_cases hIsMap : p.isMap
      · have hObject : (plain p).typeOf = some "object" := by
          obtain ⟨-, properties, hRecord⟩ := (hDescribes.converted p hp hShown).map_inv hIsMap
          rw [hRecord]
          rfl
        rw [if_pos hIsMap]
        exact eval_operate (by decide) (eval_typeOf hData hObject) rfl rfl
      · rw [if_neg hIsMap]
        refine eval_operate (by decide) hData rfl ?_
        have hNull : (Value.scalar Scalar.null).isMissing = true := rfl
        simp [operate, Value.looselyEqual, hNull, hDescribes.present p hp hShown]

include hPlan legal hReaches hMaps hRuntime hNested hAccess hDescribes

/-- An optional property that the plain object has is assigned. -/
theorem liveAssignment_run {p : Property} (hp : p ∈ plan.properties) :
    exec fuel call (.guarded (Plain.isGiven p)
        [.expr (.assign (p.on "message") (Plain.liveValue scope p))])
        (revivingStore names typeName t properties σ) =
      some (.next, revivingStore names typeName
        (if shown p then plan.stored p (back p) t else t) properties σ) := by
  rw [exec_guarded (isGiven_run hDescribes hp) rfl]
  by_cases hShown : shown p
  · have hData : eval fuel call (p.on "data") (revivingStore names typeName t properties σ) =
        some (plain p, revivingStore names typeName t properties σ) :=
      eval_onRecord rfl (propertyOf_some (hDescribes.there p hp hShown))
    have hTaken : ∀ pair ∈ (revivingStore names typeName t properties σ).frame.locals,
        pair.1 ∈ revivingVariables := by
      simp [revivingStore, revivingVariables]
    have hValue := @eval_liveValue _ _ _ fuel call (revivingStore names typeName t properties σ) _
      hPlan legal hReaches hMaps hRuntime hTaken rfl hNested p hp _ _ hData
      (hDescribes.converted p hp hShown)
    have hAssigned : assign call (p.on "message") (back p)
        (revivingStore names typeName t properties σ) =
          some (⟨⟩, revivingStore names typeName (plan.stored p (back p) t) properties σ) := by
      simp [assign, Property.on, holder?, Holder.read, Holder.write, revivingStore, memberAssigned,
        hAccess.set p hp, assignLocal, afterAssignment, Store.withLocals]
    have hAssign : eval fuel call (.assign (p.on "message") (Plain.liveValue scope p))
        (revivingStore names typeName t properties σ) =
          some (back p, revivingStore names typeName (plan.stored p (back p) t) properties σ) := by
      simp [Expr.assign, eval, hValue, hAssigned]
    rw [if_pos hShown, if_pos hShown]
    exact inBlock_run_same (execAll_expr hAssign) rfl
  · rw [if_neg hShown, if_neg hShown]

theorem liveAssignments_run :
    ∀ (ps : List Property) {t : Fields} (rest : List Stmt), (∀ p ∈ ps, p ∈ plan.properties) →
      execAll fuel call
          ((ps.map fun p => .guarded (Plain.isGiven p)
            [.expr (.assign (p.on "message") (Plain.liveValue scope p))]) ++ rest)
          (revivingStore names typeName t properties σ) =
        execAll fuel call rest (revivingStore names typeName
          ((ps.filter shown).foldl (fun t p => plan.stored p (back p) t) t) properties σ)
  | [], _, _, _ => by simp
  | p :: ps, t, rest, hMem => by
      obtain ⟨hp, hRest⟩ := List.forall_mem_cons.1 hMem
      have hFirst := @liveAssignment_run scope m plan typeName fuel call names t σ nested properties
        shown back plain hPlan legal hReaches hMaps hRuntime hNested hAccess hDescribes p hp
      rw [List.map_cons, List.cons_append, execAll_cons hFirst, liveAssignments_run ps rest hRest]
      by_cases hShown : shown p <;> simp [hShown]

/-- The body of the method: the instance is constructed, and then the optional properties are
assigned. -/
theorem fromObjectBody_run
    (hOwn : ∀ frame : Frame, frame.names = names →
      (∀ pair ∈ frame.locals, pair.1 ∈ revivingVariables) →
      LeadsTo frame (.ident plan.name) typeName)
    (hConstruct : ∀ σ, call (.construct typeName
        [.record ((plan.properties.filter (!·.optional)).map fun p => (p.name, back p))]) σ =
      some (.instance typeName (plan.built back), σ)) :
    execAll fuel call (Plain.fromObjectBody scope plan)
        { σ with frame := ⟨.undefined, names, [("data", some (.record properties))]⟩ } =
      some (.give (.instance typeName (plan.revived shown back)),
        revivingStore names typeName (plan.revived shown back) properties σ) := by
  let start : Store :=
    { σ with frame := ⟨.undefined, names, [("data", some (.record properties))]⟩ }
  -- the variable of the instance is there already, without a value
  let starting : Store := start.withLocals (("message", none) :: start.frame.locals)
  have hTaken : ∀ pair ∈ starting.frame.locals, pair.1 ∈ revivingVariables := by
    simp [starting, start, Store.withLocals, revivingVariables]
  have hRecord : eval fuel call (Plain.requiredRecord plan (Plain.liveValue scope)) starting =
      some (.record ((plan.properties.filter (!·.optional)).map fun p => (p.name, back p)),
        starting) := by
    refine eval_requiredRecord fun p hp hOptional => ?_
    have hShown := hDescribes.required p hp hOptional
    have hData : eval fuel call (p.on "data") starting = some (plain p, starting) :=
      eval_onRecord rfl (propertyOf_some (hDescribes.there p hp hShown))
    exact @eval_liveValue _ _ _ fuel call starting _ hPlan legal hReaches hMaps hRuntime hTaken rfl
      hNested p hp _ _ hData (hDescribes.converted p hp hShown)
  have hNew : exec fuel call (.constant "message"
      (.construct (.ident plan.name) [Plain.requiredRecord plan (Plain.liveValue scope)])) start =
        some (.next, revivingStore names typeName (plan.built back) properties σ) := by
    refine exec_constant (v := .instance typeName (plan.built back)) (τ := start) ?_ rfl
    exact (eval_new (hOwn starting.frame rfl hTaken) (values_cons hRecord values_nil)).trans
      (hConstruct _)
  rw [Plain.fromObjectBody, execAll_cons hNew, Plain.optionalAssignments,
    liveAssignments_run hPlan legal hReaches hMaps hRuntime hNested hAccess hDescribes _ _
      fun p hp => (List.mem_filter.1 hp).1]
  exact execAll_give (eval_variable rfl)

end Method

end FromPlain

/-! ## The method of a class -/

theorem method?_fromObject (scope : Scope) (plan : Plan) :
    method? (plan.members scope) true "fromObject" =
      some ([.typed "data" (scope.plainRecord plan)], Plain.fromObjectBody scope plan) := by
  rw [method?, Plan.members]
  simp only [List.filter_append]
  simp [Plain.fromObject, Plain.toObject, Plain.fromObjectBody, Codec.serialize, Codec.overload,
    Codec.deserialize, Codec.byteMethods, defines, List.filter, methodBody?]

/-- **An instance made from a plain object holds what the object describes.** -/
theorem fromObject_run {P : Program} {typeName : String} {scope : Scope} {m : MessageDescriptor}
    {plan : Plan} {nested : Conversion} {n : Nat} {properties : List (String × Value)}
    {shown : Property → Bool} {back plain : Property → Value}
    (hClass : ClassOf P typeName scope m plan) (revivable : Revivable P typeName scope m)
    (hNested : ∀ {other live plain}, nested other live plain →
      Revives (P.invoke (n + 2)) other live plain)
    (hDescribes : Describes plan nested properties shown back plain)
    (hThere : ∀ p ∈ plan.properties, p.isMap → ∀ v, plan.copied back p.number = some v →
      v.truth = some true) :
    Revives (P.invoke (n + 3)) typeName (.instance typeName (plan.revived shown back))
      (.record properties) := by
  intro σ
  have hRuntime : "data" ≠ (namesIn P typeName scope).runtime :=
    fun h => absurd (h.trans (runtime_eq hClass)) (by decide)
  have hBody := @fromObjectBody_run scope m plan typeName (n + 2) (P.invoke (n + 2))
    (namesIn P typeName scope) σ nested properties shown back plain hClass.planned
    hClass.legal (revivable.reaches hClass) (makesMaps hClass) hRuntime hNested
    (accesses_invoke hClass (n + 1)) hDescribes
    (fun _ hNames hLocals => revivable.leadsTo hClass hNames hLocals) fun σ =>
      constructFrom_run hClass revivable (accesses_invoke hClass n) hThere
  rw [Program.invoke]
  simp [Program.answer, names?_eq hClass, revivable.static?_eq hClass, method?_fromObject, runBody,
    inFrame, bindParams, bindTo, declare, Param.typed, bodyValue, Store.withLocals, hBody,
    revivingStore]

/-- **A class that has the name of a variable of the method is never made from a plain object.** -/
theorem fromObject_taken {P : Program} {typeName : String} {scope : Scope} {m : MessageDescriptor}
    {plan : Plan} {σ : Store} (hClass : ClassOf P typeName scope m plan)
    (hTaken : m.name ∈ revivingVariables) (n : Nat) (arguments : List Value) :
    P.invoke n (.static typeName "fromObject" arguments) σ = none := by
  cases n with
  | zero => rfl
  | succ n =>
      have hMethod : (P.members? typeName).bind (method? · true "fromObject") = some
          ([.typed "data" (scope.plainRecord plan)], Plain.fromObjectBody scope plan) := by
        rw [members?_eq hClass, Option.bind_some, method?_fromObject]
      refine invoke_static_none (names?_eq hClass) hMethod (fun data => ?_) arguments
      have hName : plan.name = "message" ∨ plan.name = "data" := by
        rw [Scope.plan_name hClass.planned]
        simpa [revivingVariables] using hTaken
      -- the variable of the name of the class hides the class where it is constructed
      rw [Plain.fromObjectBody, execAll, bind_run, Stmt.constant,
        exec_constant_none (eval_new_variable ?_ _)]
      · rfl
      · rcases hName with h | h <;> rw [h] <;> rfl

/-! ## What the fields hold -/

section Fields

variable {scope : Scope} {m : MessageDescriptor} {plan : Plan} {shown : Property → Bool}
  {back : Property → Value} (hPlan : scope.plan m = .ok plan) (legal : m.Legal scope)

include hPlan legal

/-- A property that is stored holds its value, when no other member of its oneof is stored. -/
theorem foldl_stored_mem {q : Property} {ps : List Property} {t : Fields}
    (hMem : ∀ p ∈ ps, p ∈ plan.properties) (hNodup : ps.Nodup) (hq : q ∈ ps)
    (hAlone : ∀ p ∈ ps, q.Beside p → p = q) :
    ps.foldl (fun t p => plan.stored p (back p) t) t q.number = (back q).populated := by
  -- what is stored later leaves the value alone: it is neither this property nor beside it
  obtain ⟨before, after, rfl⟩ := List.append_of_mem hq
  have hqMem := hMem q hq
  have hNew : q ∉ after := (List.nodup_cons.1 (List.nodup_append.1 hNodup).2.1).1
  have hAfter : ∀ p ∈ after, p ∈ before ++ q :: after := fun p hp =>
    List.mem_append_right _ (List.mem_cons_of_mem _ hp)
  have hOutside : ∀ p ∈ after, ¬ q.Beside p := fun p hp hBeside =>
    hNew (hAlone p (hAfter p hp) hBeside ▸ hp)
  rw [List.foldl_append, List.foldl_cons,
    foldl_stored_outside hPlan legal hqMem (fun p hp => hMem p (hAfter p hp)) hNew hOutside,
    stored_number hPlan legal.numbers legal.oneofs hqMem hqMem, if_pos rfl]

variable (hSingle : ∀ p ∈ plan.properties, p.optional = false → p.slot.oneof = none)

include hSingle

/-- After the copies, a property that is always present holds its value, and any other one what the
lists hold. -/
theorem copied_number {q : Property} (hq : q ∈ plan.properties) :
    plan.copied back q.number =
      if q.optional then plan.lists q.number else (back q).populated := by
  have hNodup := (nodup_numbers hPlan legal.numbers).of_map
  have hMem : ∀ p ∈ plan.properties.filter (!·.optional), p ∈ plan.properties :=
    fun p hp => (List.mem_filter.1 hp).1
  have hNotBeside : ∀ p ∈ plan.properties.filter (!·.optional), ¬ q.Beside p := by
    rintro p hp ⟨hOneof, hSame⟩
    obtain ⟨hpMem, hRequired⟩ := List.mem_filter.1 hp
    exact hOneof (hSame.symm.trans (hSingle p hpMem (by simpa using hRequired)))
  cases hOptional : q.optional with
  | true =>
      have hNew : q ∉ plan.properties.filter (!·.optional) := by
        simp [hOptional]
      exact foldl_stored_outside hPlan legal hq hMem hNew hNotBeside
  | false =>
      exact foldl_stored_mem hPlan legal hMem (hNodup.filter _)
        (List.mem_filter.2 ⟨hq, by rw [hOptional]; rfl⟩) fun p hp hBeside =>
          absurd hBeside (hNotBeside p hp)

/-- The maps that are copied are there, so the constructor makes no others in their place. -/
theorem copied_map
    (hMaps : ∀ p ∈ plan.properties, p.isMap → p.optional = false → ∃ entries, back p = .map entries)
    {q : Property} (hq : q ∈ plan.properties) (hMap : q.isMap) {v : Value}
    (hCopied : plan.copied back q.number = some v) : v.truth = some true := by
  rw [copied_number hPlan legal hSingle hq] at hCopied
  cases hOptional : q.optional with
  | true =>
      rw [hOptional, if_pos rfl, lists_number hPlan legal.numbers hq, isList_of_isMap hPlan hq hMap]
        at hCopied
      cases hCopied
  | false =>
      obtain ⟨entries, hBack⟩ := hMaps q hq hMap hOptional
      rw [hOptional, if_neg Bool.false_ne_true, hBack] at hCopied
      obtain rfl := Option.some.inj hCopied
      rfl

theorem built_number (hPresent : ∀ p ∈ plan.properties, shown p → (back p).isMissing = false)
    (hRequired : ∀ p ∈ plan.properties, p.optional = false → shown p) {q : Property}
    (hq : q ∈ plan.properties) :
    plan.built back q.number = if q.optional then q.initial else some (back q) := by
  rw [Plan.built, foldl_ensureMap_number, copied_number hPlan legal hSingle hq]
  simp only [mem_numbers hPlan legal.numbers hq]
  cases hOptional : q.optional with
  | true =>
      rw [if_pos rfl, if_pos rfl, lists_number hPlan legal.numbers hq, Property.initial]
      by_cases hMap : q.isMap
      · simp [hMap, isList_of_isMap hPlan hq hMap]
      · simp [hMap]
  | false =>
      have hBack := hPresent q hq (hRequired q hq hOptional)
      simp [Value.populated, hBack]

/-- **A property that the plain object has holds its value**; a map that it does not have is empty,
and anything else that it does not have is not populated. -/
theorem revived_number (hPresent : ∀ p ∈ plan.properties, shown p → (back p).isMissing = false)
    (hRequired : ∀ p ∈ plan.properties, p.optional = false → shown p)
    (hAlone : ∀ p ∈ plan.properties, ∀ q ∈ plan.properties, q.Beside p → shown p → shown q → p = q)
    {q : Property} (hq : q ∈ plan.properties) :
    plan.revived shown back q.number = if shown q then some (back q) else q.initial := by
  have hBuilt := built_number hPlan legal hSingle hPresent hRequired hq
  have hNodup := (nodup_numbers hPlan legal.numbers).of_map
  have hGiven : ∀ p ∈ (plan.properties.filter (·.optional)).filter shown,
      p ∈ plan.properties ∧ shown p := fun p hp =>
    ⟨(List.mem_filter.1 (List.mem_filter.1 hp).1).1, (List.mem_filter.1 hp).2⟩
  have hMem : ∀ p ∈ (plan.properties.filter (·.optional)).filter shown, p ∈ plan.properties :=
    fun p hp => (hGiven p hp).1
  by_cases hShown : shown q
  · -- the constructor stores what is always present, and an assignment what is optional
    rw [if_pos hShown, Plan.revived]
    cases hOptional : q.optional with
    | true =>
        rw [foldl_stored_mem hPlan legal hMem ((hNodup.filter _).filter _)
            (List.mem_filter.2 ⟨List.mem_filter.2 ⟨hq, hOptional⟩, hShown⟩)
            fun p hp hBeside => hAlone p (hMem p hp) q hq hBeside (hGiven p hp).2 hShown,
          Value.populated, hPresent q hq hShown]
        rfl
    | false =>
        have hNew : q ∉ (plan.properties.filter (·.optional)).filter shown := by
          simp [hOptional]
        rw [foldl_stored_outside hPlan legal hq hMem hNew
          fun p _ hBeside => hBeside.1 (hSingle q hq hOptional), hBuilt, hOptional]
        rfl
  · have hNew : q ∉ (plan.properties.filter (·.optional)).filter shown := by
      simp [hShown]
    have hOptional : q.optional = true := by
      by_contra hRequiredToo
      exact hShown (hRequired q hq (by simpa using hRequiredToo))
    rw [hOptional, if_pos rfl] at hBuilt
    rw [if_neg hShown, Plan.revived]
    by_cases hOneof : q.slot.oneof = none
    · rw [foldl_stored_outside hPlan legal hq hMem hNew fun p _ hBeside => hBeside.1 hOneof, hBuilt]
    · -- a member of a oneof starts unpopulated, and others only clear it
      obtain ⟨hList, hMap⟩ := single_of_oneof hPlan hq legal hOneof
      have hInitial : q.initial = none := by
        rw [Property.initial, hList, hMap]
        rfl
      rw [hInitial] at hBuilt ⊢
      exact foldl_stored_none hPlan legal hq hMem hNew hBuilt

end Fields

end Protoscribe

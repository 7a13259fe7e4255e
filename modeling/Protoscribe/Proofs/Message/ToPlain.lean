import Protoscribe.Proofs.Message.Contents
import Protoscribe.Proofs.Message.Classes

set_option autoImplicit false

/-! # What a plain object holds

`Converted` says of the value of a property which value stands for it in a plain object; how nested
messages are converted is a parameter. Main statement: `toObject_run`, the plain object of an
instance holds the properties that are shown (`Property.shown`), the ones that are always present
first, each with a value that stands for its value.
-/

namespace Protoscribe

open TypeScript Evaluation

/-! ## Converted values -/

/-- How the messages of a type are converted: the instance and its plain object. -/
abbrev Conversion := String → Value → Value → Prop

/-- An entry of a map, and the property that stands for it in a plain object. -/
structure Converted.Entry where
  key : Scalar
  text : String
  live : Value
  plain : Value

/-- What a key of a map is: a number, a truth value or a text. -/
def FieldDescriptor.HoldsKey (f : FieldDescriptor) (key : Scalar) : Prop :=
  if f.type.isNumeric then ∃ value, key = .int value
  else if f.type = .bool then ∃ value, key = .bool value
  else ∃ text, key = .string text

/-- The value of a map entry is converted. -/
def MapSide.Converts (nested : Conversion) (value : MapSide) (live plain : Value) : Prop :=
  if value.descriptor.isMessage then nested value.descriptor.typeName live plain else plain = live

/-- The value of a property, and the value that stands for it in a plain object. -/
inductive Converted (nested : Conversion) (p : Property) : Value → Value → Prop
  | scalar {repeated packed write read value}
      (content : p.content = .scalar repeated packed write read) : Converted nested p value value
  | message {typeName write live plain} (content : p.content = .message typeName false write)
      (converts : nested typeName live plain) : Converted nested p live plain
  | messages {typeName write} {items : List (Value × Value)}
      (content : p.content = .message typeName true write)
      (converts : ∀ item ∈ items, nested typeName item.1 item.2) :
      Converted nested p (.list (items.map Prod.fst)) (.list (items.map Prod.snd))
  | map {key value} {entries : List Converted.Entry} (content : p.content = .map key value)
      (keys : ∀ entry ∈ entries, key.descriptor.HoldsKey entry.key ∧
        entry.key.keyText = some entry.text)
      (distinct : (entries.map Converted.Entry.key).Nodup)
      (converts : ∀ entry ∈ entries, value.Converts nested entry.live entry.plain) :
      Converted nested p (.map (entries.map fun entry => (entry.key, entry.live)))
        (.record (entries.map fun entry => (entry.text, entry.plain)))

/-- A property that is a map holds a map, and a plain object stands for it. -/
theorem Converted.map_inv {nested : Conversion} {p : Property} {live plain : Value}
    (h : Converted nested p live plain) (hMap : p.isMap) :
    (∃ entries, live = .map entries) ∧ ∃ properties, plain = .record properties := by
  obtain ⟨key, value, hContent⟩ := Property.isMap_iff.1 hMap
  cases h with
  | map => exact ⟨⟨_, rfl⟩, _, rfl⟩
  | scalar content => simp [hContent] at content
  | message content => simp [hContent] at content
  | messages content => simp [hContent] at content

/-- The keys of a map have different texts. -/
theorem keyText_injective {f : FieldDescriptor} {a b : Scalar} (ha : f.HoldsKey a)
    (hb : f.HoldsKey b) (h : a.keyText = b.keyText) : a = b := by
  rw [FieldDescriptor.HoldsKey] at ha hb
  split at ha
  · rw [if_pos ‹_›] at hb
    obtain ⟨x, rfl⟩ := ha
    obtain ⟨y, rfl⟩ := hb
    rw [Int.repr_inj.1 (Option.some.inj h)]
  · rw [if_neg ‹_›] at hb
    split at ha
    · rw [if_pos ‹_›] at hb
      obtain ⟨x, rfl⟩ := ha
      obtain ⟨y, rfl⟩ := hb
      revert h
      cases x <;> cases y <;> decide
    · rw [if_neg ‹_›] at hb
      obtain ⟨x, rfl⟩ := ha
      obtain ⟨y, rfl⟩ := hb
      rw [Option.some.inj h]

theorem nodup_texts {f : FieldDescriptor} {entries : List Converted.Entry}
    (keys : ∀ entry ∈ entries, f.HoldsKey entry.key ∧ entry.key.keyText = some entry.text)
    (distinct : (entries.map Converted.Entry.key).Nodup) :
    (entries.map Converted.Entry.text).Nodup := by
  refine (List.nodup_map_iff_inj_on distinct.of_map).2 fun a ha b hb hText => ?_
  obtain ⟨haKey, haText⟩ := keys a ha
  obtain ⟨hbKey, hbText⟩ := keys b hb
  refine List.inj_on_of_nodup_map distinct ha hb (keyText_injective haKey hbKey ?_)
  rw [haText, hbText, hText]

theorem exists_keyText {f : FieldDescriptor} {key : Scalar} (h : f.HoldsKey key) :
    ∃ text, key.keyText = some text := by
  rw [FieldDescriptor.HoldsKey] at h
  split at h
  · obtain ⟨value, rfl⟩ := h
    exact ⟨_, rfl⟩
  · split at h
    · obtain ⟨value, rfl⟩ := h
      exact ⟨_, rfl⟩
    · obtain ⟨text, rfl⟩ := h
      exact ⟨_, rfl⟩

theorem Converted.items {nested : Conversion} {p : Property} {other write : String}
    {α : Type} {as : List α} {live plain : α → Value}
    (content : p.content = .message other true write)
    (h : ∀ a ∈ as, nested other (live a) (plain a)) :
    Converted nested p (.list (as.map live)) (.list (as.map plain)) := by
  let pairs := as.map fun a => (live a, plain a)
  have hPairs : Converted nested p (.list (pairs.map Prod.fst)) (.list (pairs.map Prod.snd)) :=
    .messages content (by simpa [pairs] using h)
  rwa [List.map_map, List.map_map] at hPairs

/-- An instance becomes a plain object. -/
def Plains (call : Invocation → M Value) : Conversion := fun _ live plain =>
  (∃ typeName s, live = .instance typeName s) ∧
    ∀ σ, call (.method live "toObject" []) σ = some (plain, σ)

section ToPlain

variable {scope : Scope} {plan : Plan} {typeName other : String} {fuel : Nat}
  {call : Invocation → M Value} {names : Names} {s : Fields} {σ : Store} {nested : Conversion}

/-! ## Parts -/

theorem mapItems_run {α : Type} {f : Value → M Value} {before after : α → Value} :
    ∀ {items : List α}, (∀ item ∈ items, f (before item) σ = some (after item, σ)) →
      mapItems f (items.map before) σ = some (items.map after, σ)
  | [], _ => rfl
  | item :: items, h => by
      obtain ⟨hFirst, hRest⟩ := List.forall_mem_cons.1 h
      simp [mapItems, hFirst, mapItems_run hRest]

/-- A call of a function for each element of a list. -/
theorem eval_mapList {e f : Expr} {items after : List Value} (hLocal : IsLocal σ.frame e)
    (hItems : eval fuel call e σ = some (.list items, σ))
    (hMap : mapItems (fun item => runArg fuel call f [item]) items σ = some (after, σ)) :
    eval fuel call (e.method "map" [f]) σ = some (.list after, σ) := by
  rw [eval_method hLocal hItems]
  simp [methodCall, evalArgs, hMap]

theorem eval_toPlain {e : Expr} {live plain : Value} (hLocal : IsLocal σ.frame e)
    (hLive : eval fuel call e σ = some (live, σ)) (hPlains : Plains call other live plain) :
    eval fuel call (Plain.toPlain e) σ = some (plain, σ) := by
  obtain ⟨⟨typeName, s, rfl⟩, hRun⟩ := hPlains
  rw [Plain.toPlain, eval_method hLocal hLive]
  simp [methodCall, evalArgs, values, hRun]

/-- The function that converts an element of a list. -/
theorem runArg_toPlain {param : Ty} {live plain : Value} (hPlains : Plains call other live plain) :
    runArg fuel call (.lambda [.typed "item" param] (Plain.toPlain (.ident "item"))) [live] σ =
      some (plain, σ) := by
  have hBody : eval fuel call (Plain.toPlain (.ident "item"))
      (σ.withLocals (("item", some live) :: σ.frame.locals)) =
        some (plain, σ.withLocals ([("item", some live)] ++ σ.frame.locals)) :=
    eval_toPlain (isLocal_variable rfl) (eval_variable rfl) hPlains
  rw [Expr.lambda, runArg]
  refine inBlock_run_declared [("item", some live)] ?_ rfl
  simp only [bindParams, bindTo, Param.typed, declare, bind_run, modify_run, pure_run,
    Option.bind_some]
  exact hBody

/-- A function of the key and the value of an entry. -/
theorem runArg_pair {body : Expr} {key value result : Value}
    (h : eval fuel call body
        (σ.withLocals (("value", some value) :: ("key", some key) :: σ.frame.locals)) =
      some (result, σ.withLocals (("value", some value) :: ("key", some key) :: σ.frame.locals))) :
    runArg fuel call (.lambda [.pair "key" "value"] body) [.list [key, value]] σ =
      some (result, σ) := by
  rw [Expr.lambda, runArg]
  refine inBlock_run_declared [("value", some value), ("key", some key)] ?_ rfl
  simp only [bindParams, bindTo, Param.pair, declare, bind_run, modify_run, pure_run,
    Option.bind_some, Store.withLocals]
  exact h

theorem eval_pair {a b : Expr} {v w : Value} (ha : eval fuel call a σ = some (v, σ))
    (hb : eval fuel call b σ = some (w, σ)) :
    eval fuel call (.array [a, b]) σ = some (.list [v, w], σ) := by
  rw [eval, bind_run, values_cons ha (values_cons hb values_nil)]
  rfl

/-! ## Values -/

/-- A plain object made of the entries of a map. -/
theorem recordOf_entries {entries : List Converted.Entry}
    (texts : ∀ entry ∈ entries, entry.key.keyText = some entry.text)
    (distinct : (entries.map Converted.Entry.text).Nodup) :
    recordOf (entries.map fun entry => .list [.scalar entry.key, entry.plain]) =
      some (.record (entries.map fun entry => (entry.text, entry.plain))) := by
  have hProperties : (entries.map fun entry =>
      Value.list [.scalar entry.key, entry.plain]).mapM Value.property? =
        some (entries.map fun entry => (entry.text, entry.plain)) := by
    clear distinct
    induction entries with
    | nil => rfl
    | cons entry entries ih =>
        obtain ⟨hFirst, hRest⟩ := List.forall_mem_cons.1 texts
        simp [Value.property?, hFirst, ih hRest]
  rw [recordOf, hProperties, Option.bind_eq_bind, Option.bind_some, List.foldl_map,
    foldl_insertEntry (by simpa using distinct), List.nil_append]
  rfl

/-- The plain object of a map. -/
theorem eval_plainMap {p : Property} {key value : MapSide} {entries : List Converted.Entry}
    (keys : ∀ entry ∈ entries, key.descriptor.HoldsKey entry.key ∧
      entry.key.keyText = some entry.text)
    (distinct : (entries.map Converted.Entry.key).Nodup)
    (converts : ∀ entry ∈ entries, value.Converts nested entry.live entry.plain)
    (hNested : ∀ {other live plain}, nested other live plain → Plains call other live plain)
    (hArray : IsGlobal σ.frame "Array") (hObject : IsGlobal σ.frame "Object")
    (hThis : eval fuel call p.onThis σ =
      some (.map (entries.map fun entry => (entry.key, entry.live)), σ)) :
    eval fuel call (Expr.method (.ident "Object") "fromEntries"
        [Plain.plainEntries value.descriptor p.onThis]) σ =
      some (.record (entries.map fun entry => (entry.text, entry.plain)), σ) := by
  have hRecord := recordOf_entries (fun entry hMem => (keys entry hMem).2)
    (nodup_texts keys distinct)
  rw [Plain.plainEntries]
  by_cases hMessage : value.descriptor.isMessage
  · -- the entries are made a list first, so that the messages in them are converted one by one
    have hItems : eval fuel call (Expr.method (.ident "Array") "from" [p.onThis]) σ =
        some (.list (entries.map fun entry => .list [.scalar entry.key, entry.live]), σ) := by
      refine eval_global hArray (values_cons hThis values_nil) ?_
      simp [globalCall, Value.elements, Function.comp_def]
    have hMap : mapItems (fun item => runArg fuel call (.lambda [.pair "key" "value"]
        (.array [.ident "key", Plain.toPlain (.ident "value")])) [item])
        (entries.map fun entry => .list [.scalar entry.key, entry.live]) σ =
          some (entries.map fun entry => .list [.scalar entry.key, entry.plain], σ) := by
      refine mapItems_run fun entry hMem => ?_
      have hConverts := converts entry hMem
      rw [MapSide.Converts, if_pos hMessage] at hConverts
      exact runArg_pair (eval_pair (eval_variable rfl) (eval_toPlain
        (isLocal_variable rfl) (eval_variable rfl) (hNested hConverts)))
    have hMapped := eval_mapList (isLocal_of_none rfl) hItems hMap
    rw [if_pos hMessage]
    exact eval_global hObject (values_cons hMapped values_nil) hRecord
  · rw [if_neg hMessage]
    refine eval_global hObject (values_cons hThis values_nil) ?_
    have hSame : entries.map (fun entry => Value.list [.scalar entry.key, entry.live]) =
        entries.map fun entry => .list [.scalar entry.key, entry.plain] := by
      refine List.map_congr_left fun entry hMem => ?_
      have hConverts := converts entry hMem
      rw [MapSide.Converts, if_neg hMessage] at hConverts
      rw [hConverts]
    simp [globalCall, Value.elements, Function.comp_def, hSame, hRecord]

/-- The value of a property in a plain object. -/
theorem eval_plainValue
    (hNested : ∀ {other live plain}, nested other live plain → Plains call other live plain)
    {p : Property} (hGlobals : p.isMap → IsGlobal σ.frame "Array" ∧ IsGlobal σ.frame "Object")
    {live plain : Value} (hThis : eval fuel call p.onThis σ = some (live, σ))
    (hConverted : Converted nested p live plain) :
    eval fuel call (Plain.plainValue scope p) σ = some (plain, σ) := by
  rw [Plain.plainValue]
  cases hConverted with
  | scalar content =>
      rw [content]
      exact hThis
  | message content converts =>
      rw [content]
      exact eval_toPlain (isLocal_this _ _) hThis (hNested converts)
  | messages content converts =>
      rw [content]
      exact eval_mapList (isLocal_this _ _) hThis
        (mapItems_run fun item hMem => runArg_toPlain (hNested (converts item hMem)))
  | map content keys distinct converts =>
      obtain ⟨hArray, hObject⟩ := hGlobals (Property.isMap_iff.2 ⟨_, _, content⟩)
      rw [content]
      exact eval_plainMap keys distinct converts hNested hArray hObject hThis

/-! ## Whether a property is shown -/

/-- Whether the plain object of an instance has a property: always, when the property is not
optional, and otherwise when it is a map with entries or has a value. -/
def Property.shown (scope : Scope) (p : Property) (s : Fields) : Bool :=
  !p.optional ||
    match p.isMap, p.value scope s with
    | true, .map entries => !entries.isEmpty
    | true, _ => false
    | false, v => !v.isMissing

theorem shown_of_required {p : Property} (h : p.optional = false) : p.shown scope s := by
  rw [Property.shown, h]
  rfl

/-- The properties of the plain object of an instance: those that are always present, then the
others that are shown. -/
def Plan.plainProperties (scope : Scope) (plan : Plan) (s : Fields) : List Property :=
  plan.properties.filter (!·.optional) ++
    (plan.properties.filter (·.optional)).filter (·.shown scope s)

theorem mem_plainProperties {p : Property} :
    p ∈ plan.plainProperties scope s ↔ p ∈ plan.properties ∧ p.shown scope s := by
  rw [Plan.plainProperties, List.mem_append, List.mem_filter, List.mem_filter, List.mem_filter]
  cases hOptional : p.optional <;> simp [Property.shown, hOptional]

theorem isPresent_run {p : Property} {live : Value} (hOptional : p.optional)
    (hLive : p.value scope s = live) (hMap : p.isMap → ∃ entries, live = .map entries)
    (hThis : eval fuel call p.onThis σ = some (live, σ)) :
    eval fuel call (Plain.isPresent p) σ = some (.bool (p.shown scope s), σ) := by
  rw [Plain.isPresent, Property.shown, hOptional, hLive]
  cases hIsMap : p.isMap with
  | true =>
      obtain ⟨entries, rfl⟩ := hMap hIsMap
      have hSize : eval fuel call (.member p.onThis "size") σ =
          some (.int entries.length, σ) := by
        rw [eval_member rfl hThis]
        rfl
      refine eval_operate (by decide) hSize (eval_int 0) ?_
      cases entries with
      | nil => rfl
      | cons entry entries => simp [operate, Value.int]
  | false =>
      refine eval_operate (by decide) hThis rfl ?_
      have hNull : (Value.scalar Scalar.null).isMissing = true := rfl
      simp [operate, Value.looselyEqual, hNull]

/-- Putting the properties that are always present first keeps their names apart. -/
theorem nodup_names_split {m : MessageDescriptor} (hPlan : scope.plan m = .ok plan)
    (distinct : m.DistinctNames) :
    ((plan.properties.filter (!·.optional) ++ plan.properties.filter (·.optional)).map
      Property.name).Nodup := by
  have hPerm : (plan.properties.filter (!·.optional) ++ plan.properties.filter (·.optional)).Perm
      plan.properties := by
    simpa using List.filter_append_perm (fun p : Property => !p.optional) plan.properties
  rw [(hPerm.map Property.name).nodup_iff, names_of_plan hPlan]
  exact distinct.fields

theorem nodup_plainProperties {m : MessageDescriptor} (hPlan : scope.plan m = .ok plan)
    (distinct : m.DistinctNames) : ((plan.plainProperties scope s).map Property.name).Nodup :=
  (nodup_names_split hPlan distinct).sublist
    ((List.Sublist.append_left List.filter_sublist _).map _)

/-! ## The method -/

theorem evalProperties_run {value : Property → Expr} {plain : Property → Value} :
    ∀ {ps : List Property}, (∀ p ∈ ps, eval fuel call (value p) σ = some (plain p, σ)) →
      evalProperties fuel call (ps.map fun p => (.name p.name, value p)) σ =
        some (ps.map fun p => (p.name, plain p), σ)
  | [], _ => by simp [evalProperties]
  | p :: ps, h => by
      obtain ⟨hFirst, hRest⟩ := List.forall_mem_cons.1 h
      simp [evalProperties, hFirst, evalProperties_run hRest, propertyName]

/-- The record of the properties that are always present. -/
theorem eval_requiredRecord {value : Property → Expr} {plain : Property → Value}
    (h : ∀ p ∈ plan.properties, p.optional = false →
      eval fuel call (value p) σ = some (plain p, σ)) :
    eval fuel call (Plain.requiredRecord plan value) σ =
      some (.record ((plan.properties.filter (!·.optional)).map fun p => (p.name, plain p)), σ) := by
  have hEach : ∀ p ∈ plan.properties.filter (!·.optional),
      eval fuel call (value p) σ = some (plain p, σ) := by
    intro p hp
    obtain ⟨hMem, hOptional⟩ := List.mem_filter.1 hp
    exact h p hMem (by simpa using hOptional)
  rw [Plain.requiredRecord, eval, bind_run, evalProperties_run hEach]
  rfl

/-- The body of the method that makes a plain object. -/
def Plain.toObjectBody (scope : Scope) (plan : Plan) : List Stmt :=
  .const (.name "data") (some (scope.plainRecord plan))
      (requiredRecord plan (plainValue scope))
    :: (optionalAssignments plan "data" isPresent (plainValue scope) ++ [.give (.ident "data")])

/-- The state in which an instance becomes a plain object. -/
def plainingStore (names : Names) (typeName : String) (s : Fields)
    (properties : List (String × Value)) (σ : Store) : Store :=
  { σ with frame := ⟨.instance typeName s, names, [("data", some (.record properties))]⟩ }

/-- The values of the properties of an instance stand in a plain object as some values each. -/
structure Plainly (scope : Scope) (plan : Plan) (nested : Conversion) (s : Fields)
    (plain : Property → Value) : Prop where
  maps : ∀ p ∈ plan.properties, p.isMap → ∃ entries, p.value scope s = .map entries
  converted : ∀ p ∈ plan.properties, p.shown scope s →
    Converted nested p (p.value scope s) (plain p)

section Method

variable {m : MessageDescriptor} {plain : Property → Value}
  (hNested : ∀ {other live plain}, nested other live plain → Plains call other live plain)
  (hAccess : Accesses scope plan typeName call) (hMaps : plan.MakesMaps names)
  (hPlainly : Plainly scope plan nested s plain)

include hNested hAccess hMaps hPlainly

/-- A property that is shown is converted, where no variable takes a name of the language. -/
theorem eval_shown {p : Property} (hp : p ∈ plan.properties) (hShown : p.shown scope s)
    (hSelf : σ.frame.self = .instance typeName s) (hNames : σ.frame.names = names)
    (hArray : σ.frame.locals.lookup "Array" = none)
    (hObject : σ.frame.locals.lookup "Object" = none) :
    eval fuel call (Plain.plainValue scope p) σ = some (plain p, σ) := by
  refine eval_plainValue hNested (fun hIsMap => ?_) (eval_onThis hAccess hp hSelf)
    (hPlainly.converted p hp hShown)
  have hGlobal := hMaps p hp hIsMap
  rw [← hNames] at hGlobal
  exact ⟨⟨hArray, hGlobal _ (by decide)⟩, hObject, hGlobal _ (by decide)⟩

/-- A shown property is put in the plain object, any other optional property is left out. -/
theorem plainAssignment_run {p : Property} (hp : p ∈ plan.properties) (hOptional : p.optional)
    {properties : List (String × Value)} (hNew : p.name ∉ properties.map Prod.fst) :
    exec fuel call (.guarded (Plain.isPresent p)
        [.expr (.assign (p.on "data") (Plain.plainValue scope p))])
        (plainingStore names typeName s properties σ) =
      some (.next, plainingStore names typeName s
        (properties ++ if p.shown scope s then [(p.name, plain p)] else []) σ) := by
  -- the guard and the assigned value read the property through the same getter
  have hThis : eval fuel call p.onThis (plainingStore names typeName s properties σ) =
      some (p.value scope s, plainingStore names typeName s properties σ) :=
    eval_onThis hAccess hp rfl
  rw [exec_guarded (isPresent_run hOptional rfl (hPlainly.maps p hp) hThis) rfl]
  by_cases hShown : p.shown scope s
  · have hValue : eval fuel call (Plain.plainValue scope p)
        (plainingStore names typeName s properties σ) =
          some (plain p, plainingStore names typeName s properties σ) :=
      eval_shown hNested hAccess hMaps hPlainly hp hShown rfl rfl rfl rfl
    have hAssigned : assign call (p.on "data") (plain p)
        (plainingStore names typeName s properties σ) =
          some (⟨⟩, plainingStore names typeName s (properties ++ [(p.name, plain p)]) σ) := by
      simp [assign, Property.on, holder?, Holder.read, Holder.write, plainingStore, memberAssigned,
        assignLocal, afterAssignment, Store.withLocals, insertEntry_new hNew]
    have hAssign : eval fuel call (.assign (p.on "data") (Plain.plainValue scope p))
        (plainingStore names typeName s properties σ) =
          some (plain p,
            plainingStore names typeName s (properties ++ [(p.name, plain p)]) σ) := by
      simp [Expr.assign, eval, hValue, hAssigned]
    rw [if_pos hShown, if_pos hShown]
    exact inBlock_run_same (execAll_expr hAssign) rfl
  · rw [if_neg hShown, if_neg hShown, List.append_nil]

theorem plainAssignments_run :
    ∀ (ps : List Property) {properties : List (String × Value)} (rest : List Stmt),
      (∀ p ∈ ps, p ∈ plan.properties ∧ p.optional) →
      (properties.map Prod.fst ++ ps.map Property.name).Nodup →
      execAll fuel call
          ((ps.map fun p => .guarded (Plain.isPresent p)
            [.expr (.assign (p.on "data") (Plain.plainValue scope p))]) ++ rest)
          (plainingStore names typeName s properties σ) =
        execAll fuel call rest (plainingStore names typeName s
          (properties ++ (ps.filter (·.shown scope s)).map fun p => (p.name, plain p)) σ)
  | [], properties, rest, _, _ => by simp
  | p :: ps, properties, rest, hMem, hNodup => by
      obtain ⟨⟨hp, hOptional⟩, hRest⟩ := List.forall_mem_cons.1 hMem
      have hNew : p.name ∉ properties.map Prod.fst := fun h =>
        (List.nodup_append.1 hNodup).2.2 _ h _ (by simp) rfl
      have hFirst := @plainAssignment_run scope plan typeName fuel call names s σ nested plain
        hNested hAccess hMaps hPlainly p hp hOptional properties hNew
      rw [List.map_cons, List.cons_append, execAll_cons hFirst]
      have hNodupRest : ((properties ++ if p.shown scope s then [(p.name, plain p)] else []).map
          Prod.fst ++ ps.map Property.name).Nodup := by
        by_cases hShown : p.shown scope s
        · simpa [hShown] using hNodup
        · rw [if_neg hShown, List.append_nil]
          exact hNodup.sublist (List.Sublist.append_left (List.sublist_cons_self _ _) _)
      rw [plainAssignments_run ps rest hRest hNodupRest]
      by_cases hShown : p.shown scope s <;> simp [hShown]

/-- **The plain object of an instance holds the properties that are shown.** -/
theorem toObjectBody_run (hPlan : scope.plan m = .ok plan) (distinct : m.DistinctNames) :
    execAll fuel call (Plain.toObjectBody scope plan)
        { σ with frame := ⟨.instance typeName s, names, []⟩ } =
      some (.give (.record ((plan.plainProperties scope s).map fun p => (p.name, plain p))),
        plainingStore names typeName s
          ((plan.plainProperties scope s).map fun p => (p.name, plain p)) σ) := by
  let start : Store := { σ with frame := ⟨.instance typeName s, names, []⟩ }
  have hRequired : eval fuel call (Plain.requiredRecord plan (Plain.plainValue scope))
      (start.withLocals [("data", none)]) = some (.record
        ((plan.properties.filter (!·.optional)).map fun p => (p.name, plain p)),
        start.withLocals [("data", none)]) :=
    eval_requiredRecord fun p hp hOptional =>
      eval_shown hNested hAccess hMaps hPlainly hp (shown_of_required hOptional) rfl rfl rfl rfl
  have hConst : exec fuel call (.const (.name "data") (some (scope.plainRecord plan))
      (Plain.requiredRecord plan (Plain.plainValue scope)))
      { σ with frame := ⟨.instance typeName s, names, []⟩ } =
        some (.next, plainingStore names typeName s
          ((plan.properties.filter (!·.optional)).map fun p => (p.name, plain p)) σ) :=
    exec_constant (τ := start) hRequired rfl
  have hNodup : (((plan.properties.filter (!·.optional)).map fun p => (p.name, plain p)).map
      Prod.fst ++ (plan.properties.filter (·.optional)).map Property.name).Nodup := by
    rw [List.map_map, show Prod.fst ∘ (fun p : Property => (p.name, plain p)) = Property.name from
      rfl, ← List.map_append]
    exact nodup_names_split hPlan distinct
  rw [Plain.toObjectBody, execAll_cons hConst, Plain.optionalAssignments,
    plainAssignments_run hNested hAccess hMaps hPlainly _ _
      (fun p hp => ⟨(List.mem_filter.1 hp).1, (List.mem_filter.1 hp).2⟩) hNodup,
    ← List.map_append]
  exact execAll_give (eval_variable rfl)

end Method

end ToPlain

/-! ## The method of a class -/

theorem method?_toObject (scope : Scope) (plan : Plan) :
    method? (plan.members scope) false "toObject" =
      some ([], Plain.toObjectBody scope plan) := by
  rw [method?, Plan.members]
  simp only [List.filter_append]
  simp [Plain.fromObject, Plain.toObject, Plain.toObjectBody, Codec.serialize, Codec.overload,
    Codec.deserialize, Codec.byteMethods, defines, List.filter, methodBody?]

/-- **The plain object of an instance holds the properties that are shown**, each with a value that
stands for its value. -/
theorem toObject_run {P : Program} {typeName : String} {scope : Scope} {m : MessageDescriptor}
    {plan : Plan} {nested : Conversion} {n : Nat} {s : Fields} {plain : Property → Value}
    (hClass : ClassOf P typeName scope m plan)
    (hAccess : Accesses scope plan typeName (P.invoke n))
    (hNested : ∀ {other live plain}, nested other live plain → Plains (P.invoke n) other live plain)
    (hPlainly : Plainly scope plan nested s plain) :
    Plains (P.invoke (n + 1)) typeName (.instance typeName s)
      (.record ((plan.plainProperties scope s).map fun p => (p.name, plain p))) := by
  refine ⟨⟨_, _, rfl⟩, fun σ => ?_⟩
  have hBody := @toObjectBody_run scope plan typeName n (P.invoke n) (namesIn P typeName scope) s σ
    nested m plain hNested hAccess (makesMaps hClass) hPlainly hClass.planned hClass.legal.names
  simp [Program.invoke, Program.answer, names?_eq hClass, members?_eq hClass,
    method?_toObject, runBody, inFrame, bindParams, bodyValue, hBody, plainingStore]

end Protoscribe

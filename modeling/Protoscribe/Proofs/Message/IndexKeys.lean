import Protoscribe.Proofs.Message.StorageClass
import Protoscribe.Proofs.TypeScript.IndexSignature

set_option autoImplicit false

/-! # The index signatures of a message class

In the class of a message, the type of the plain object has an index signature for each map and the
table of each oneof has one; nothing else has any (`mem_indexKeys_members`). So what is emitted for
a message has the index signatures that the descriptors of the message and of the messages declared
in it call for. Main statement: `mem_indexKeys_messageDecls`.

The types of values have no index signature in them (`indexKeys_valueType`), as a map is an instance
of a class there. For everything else in a class, its list of keys is put together from those of its
parts by `simp`.
-/

namespace Protoscribe

open TypeScript Checked

/-! ## Types and references -/

/-- The type of a value has no index signature in it, at any depth of map entries. -/
theorem indexKeys_valueTypeWithin {scope : Scope} :
    ∀ {steps : Nat} {f : FieldDescriptor} {type : Ty},
      scope.valueTypeWithin steps f = .ok type → type.indexKeys = []
  | 0, _, _, h => by cases h
  | steps + 1, f, type, h => by
      rw [Scope.valueTypeWithin] at h
      cases hMap : scope.mapOf? f with
      | none =>
          rw [hMap] at h
          obtain ⟨name, rfl⟩ := plainType_named h
          exact Ty.indexKeys_named name
      | some entry =>
          rw [hMap] at h
          obtain ⟨key, hKey, h⟩ := bind_eq_ok.1 h
          obtain ⟨value, hValue, h⟩ := bind_eq_ok.1 h
          obtain rfl := pure_eq_ok.1 h
          simp [indexKeys_valueTypeWithin hKey, indexKeys_valueTypeWithin hValue]

theorem indexKeys_valueType {scope : Scope} {f : FieldDescriptor} {type : Ty}
    (h : scope.valueType f = .ok type) : type.indexKeys = [] :=
  indexKeys_valueTypeWithin h

theorem indexKeys_propertyType {scope : Scope} {f : FieldDescriptor} {type : Ty}
    (h : scope.propertyType f = .ok type) : type.indexKeys = [] := by
  obtain ⟨value, hValue, h⟩ := bind_eq_ok.1 h
  obtain rfl := pure_eq_ok.1 h
  split
  · rw [Ty.indexKeys_array, indexKeys_valueType hValue]
  · exact indexKeys_valueType hValue

section References

variable (scope : Scope)

@[simp] theorem indexKeys_typeRef (typeName : String) : (scope.typeRef typeName).indexKeys = [] :=
  Ty.indexKeys_named _

@[simp] theorem indexKeys_memberChain (path : String) : (memberChain path).indexKeys = [] := by
  have hFold : ∀ (names : List String) (e : Expr), e.indexKeys = [] →
      (names.foldl Expr.member e).indexKeys = [] := by
    intro names
    induction names with
    | nil => exact fun _ h => h
    | cons name names ih => exact fun e h => ih _ (by simpa using h)
  rw [memberChain]
  split
  · simp
  · exact hFold _ _ (by simp)

@[simp] theorem indexKeys_valueRef (typeName : String) :
    (scope.valueRef typeName).indexKeys = [] :=
  indexKeys_memberChain _

@[simp] theorem indexKeys_runtimeMessage : scope.runtimeMessage.indexKeys = [] := by
  simp [Scope.runtimeMessage]

@[simp] theorem indexKeys_runtimeCall (name : String) (arguments : List Expr) :
    (scope.runtimeCall name arguments).indexKeys = arguments.flatMap Expr.indexKeys := by
  simp [Scope.runtimeCall]

@[simp] theorem indexKeys_plainMessage (typeName : String) :
    (scope.plainMessage typeName).indexKeys = [] := by
  simp [Scope.plainMessage]

end References

/-! ## Properties -/

/-- The types of a property have no index signatures in them. -/
structure Property.Unindexed (p : Property) : Prop where
  type : p.type.indexKeys = []
  sides : ∀ key value, p.content = .map key value →
    key.type.indexKeys = [] ∧ value.type.indexKeys = []

theorem type_of_mapSide {scope : Scope} {f : FieldDescriptor} {side : MapSide}
    (h : scope.mapSide f = .ok side) : scope.valueType f = .ok side.type := by
  obtain ⟨type, hType, h⟩ := bind_eq_ok.1 h
  obtain ⟨routine, -, h⟩ := bind_eq_ok.1 h
  obtain rfl := pure_eq_ok.1 h
  exact hType

section Planned

variable {scope : Scope} {m : MessageDescriptor} {plan : Plan} {p : Property}

/-- A map has keys and values of the types of its entries. -/
theorem types_of_map (hPlan : scope.plan m = .ok plan) (hp : p ∈ plan.properties)
    {key value : MapSide} (h : p.content = .map key value) :
    ∃ entry, scope.mapOf? p.slot.descriptor = some entry ∧
      scope.valueType entry.key = .ok key.type ∧ scope.valueType entry.value = .ok value.type := by
  have hContent := content_of_plan hPlan hp
  rw [h, Scope.storage] at hContent
  cases hMap : scope.mapOf? p.slot.descriptor with
  | none =>
      by_cases hMessage : p.slot.descriptor.isMessage <;> simp [hMap, hMessage] at hContent
  | some entry =>
      simp only [hMap, Content.map.injEq] at hContent
      obtain ⟨key', value', ⟨rfl, rfl⟩, hKey, hValue⟩ := hContent
      exact ⟨entry, rfl, type_of_mapSide hKey, type_of_mapSide hValue⟩

/-- A field that is typed by a map entry is a map, with keys of the type of the entry's key. -/
theorem map_of_entry (hPlan : scope.plan m = .ok plan) (hp : p ∈ plan.properties)
    {entry : MapEntry} (h : scope.mapOf? p.slot.descriptor = some entry) :
    ∃ key value, p.content = .map key value ∧ scope.valueType entry.key = .ok key.type := by
  have hContent := content_of_plan hPlan hp
  rw [Scope.storage, h] at hContent
  obtain ⟨key, value, hContent, hKey, -⟩ := hContent
  exact ⟨key, value, hContent, type_of_mapSide hKey⟩

end Planned

theorem unindexed_of_plan {scope : Scope} {m : MessageDescriptor} {plan : Plan}
    (hPlan : scope.plan m = .ok plan) {p : Property} (hp : p ∈ plan.properties) : p.Unindexed where
  type := indexKeys_propertyType ((typed_of_plan hPlan).types p hp)
  sides key value h := by
    obtain ⟨entry, -, hKey, hValue⟩ := types_of_map hPlan hp h
    exact ⟨indexKeys_valueType hKey, indexKeys_valueType hValue⟩

/-! ## The members of a class -/

section Members

variable (scope : Scope) {plan : Plan} (unindexed : ∀ p ∈ plan.properties, p.Unindexed)

@[simp] theorem indexKeys_onThis (p : Property) : p.onThis.indexKeys = [] := by
  simp [Property.onThis]

@[simp] theorem indexKeys_on (p : Property) (holder : String) :
    (p.on holder).indexKeys = [] := by
  simp [Property.on]

include unindexed in
theorem indexKeys_ungroupedRecord : plan.ungroupedRecord.indexKeys = [] := by
  rw [Plan.ungroupedRecord, Ty.indexKeys_ofProperties, List.flatMap_map,
    List.flatMap_eq_nil_iff]
  exact fun p hp => (unindexed p (List.mem_of_mem_filter hp)).type

include unindexed in
theorem indexKeys_alternatives {index : Nat} {type : Ty}
    (h : plan.alternatives? index = some type) : type.indexKeys = [] := by
  have hGroup : ∀ p ∈ plan.group index, p.type.indexKeys = [] :=
    fun p hp => (unindexed p (mem_group.1 hp).1).type
  rw [Plan.alternatives?] at h
  split at h
  · cases h
  · obtain rfl := Option.some.inj h
    rw [Ty.indexKeys_union, List.flatMap_map, List.flatMap_eq_nil_iff]
    intro chosen _
    rw [Plan.alternative, Ty.indexKeys_ofProperties, List.flatMap_map, List.flatMap_eq_nil_iff]
    intro p hp
    -- a member has its own type where it is chosen, and `never` everywhere else
    show (if p.number = chosen.number then p.type else .named "never").indexKeys = []
    split
    · exact hGroup p hp
    · exact Ty.indexKeys_named _

include unindexed in
theorem indexKeys_liveRecord : plan.liveRecord.indexKeys = [] := by
  rw [Plan.liveRecord]
  split
  · exact indexKeys_ungroupedRecord unindexed
  · rw [Ty.indexKeys_intersection, List.flatMap_cons, indexKeys_ungroupedRecord unindexed,
      List.nil_append, List.flatMap_eq_nil_iff]
    intro type hType
    obtain ⟨index, -, hAlternatives⟩ := List.mem_filterMap.1 hType
    exact indexKeys_alternatives unindexed hAlternatives

include unindexed in
theorem indexKeys_constructor : (Instance.constructor scope plan).indexKeys = [] := by
  have hCopy : ∀ p : Property, (Instance.copy p).indexKeys = [] := by
    intro p
    rw [Instance.copy]
    split <;> simp [Instance.isGiven, Instance.data]
  simp [Instance.constructor, Instance.setUp, Instance.isPositional, Instance.data,
    Instance.isRecord, Instance.ensureMap, List.flatMap_map, hCopy,
    indexKeys_liveRecord unindexed]

theorem indexKeys_declaredDefault {f : FieldDescriptor} {value : Expr}
    (h : Access.declaredDefault? scope f = some value) : value.indexKeys = [] := by
  rw [Access.declaredDefault?] at h
  split at h
  · cases h
  · split at h <;> cases h <;> simp

theorem indexKeys_stored (p : Property) : (Access.stored scope p).indexKeys = [] := by
  rw [Access.stored]
  cases p.content with
  | message typeName repeated => simp
  | map => simp
  | scalar =>
      cases hDefault : Access.declaredDefault? scope p.slot.descriptor with
      | none => simp
      | some value => simp [indexKeys_declaredDefault scope hDefault]

theorem indexKeys_store (p : Property) : (Access.store scope plan p).indexKeys = [] := by
  rw [Access.store]
  split
  · simp [Access.value]
  · cases p.content <;> simp [Access.value]

include unindexed in
theorem indexKeys_accessors :
    (Access.accessors scope plan).flatMap Member.indexKeys = [] := by
  rw [Access.accessors, List.flatMap_assoc, List.flatMap_eq_nil_iff]
  intro p hp
  simp [Access.getter, Access.setter, indexKeys_stored, indexKeys_store, (unindexed p hp).type]

theorem indexKeys_caseGetter (index : Nat) (name : String) :
    (Access.caseGetter scope plan index name).indexKeys = [.named "number"] := by
  simp [Access.caseGetter, Access.caseTableType, Access.caseTable, List.flatMap_map]

/-- The table of each oneof is indexed by numbers. -/
theorem mem_indexKeys_caseGetters {key : Ty} :
    key ∈ (Access.caseGetters scope plan).flatMap Member.indexKeys ↔
      plan.oneofs ≠ [] ∧ key = .named "number" := by
  have hEach : ∀ member ∈ Access.caseGetters scope plan, member.indexKeys = [.named "number"] := by
    intro member hMember
    obtain ⟨index, hIndex, rfl⟩ := List.mem_mapIdx.1 hMember
    exact indexKeys_caseGetter scope index _
  have hSome : Access.caseGetters scope plan = [] ↔ plan.oneofs = [] := List.mapIdx_eq_nil_iff
  rw [List.flatMap_congr hEach, ne_eq, ← hSome]
  cases Access.caseGetters scope plan <;> simp

theorem indexKeys_writeProperty (p : Property) :
    (Codec.writeProperty scope p).indexKeys = [] := by
  have hWritten : (Codec.isWritten p).indexKeys = [] := by
    rw [Codec.isWritten]
    split <;> simp
  have hValue : ∀ f : FieldDescriptor,
      (Codec.mapValueArguments f).flatMap Expr.indexKeys = [] := by
    intro f
    rw [Codec.mapValueArguments]
    split <;> simp [Codec.writeInto, Codec.writer]
  rw [Codec.writeProperty]
  split <;> simp [Codec.writeMap, Codec.write, Codec.writer, Codec.writeInto, hWritten, hValue]

theorem indexKeys_serialize :
    (Codec.serialize scope plan).flatMap Member.indexKeys = [] := by
  simp [Codec.serialize, Codec.overload, Codec.serializeBody, Codec.bytesType, Codec.writerType,
    Codec.writer, List.flatMap_map, indexKeys_writeProperty]

theorem indexKeys_readProperty (p : Property) : (Codec.readProperty scope p).indexKeys = [] := by
  have hValue : ∀ value, (Codec.mapValueReader scope value).indexKeys = [] := by
    intro value
    rw [Codec.mapValueReader]
    split <;> simp [Codec.readMessage, Codec.readFrom, Codec.reader]
  rw [Codec.readProperty]
  split <;> simp [Codec.readMessage, Codec.readFrom, Codec.reader, hValue]

theorem indexKeys_deserialize : (Codec.deserialize scope plan).indexKeys = [] := by
  simp [Codec.deserialize, Codec.deserializeBody, Codec.bytesType, Codec.readerType, Codec.reader,
    Codec.readCase, List.flatMap_map, indexKeys_readProperty]

theorem indexKeys_byteMethods :
    (Codec.byteMethods plan).flatMap Member.indexKeys = [] := by
  simp [Codec.byteMethods, Codec.bytesType]

theorem indexKeys_requiredRecord {value : Property → Expr} (h : ∀ p, (value p).indexKeys = []) :
    (Plain.requiredRecord plan value).indexKeys = [] := by
  simp [Plain.requiredRecord, List.flatMap_map, h]

theorem indexKeys_optionalAssignments {target : String} {test value : Property → Expr}
    (hTest : ∀ p, (test p).indexKeys = []) (hValue : ∀ p, (value p).indexKeys = []) :
    (Plain.optionalAssignments plan target test value).flatMap Stmt.indexKeys = [] := by
  simp [Plain.optionalAssignments, List.flatMap_map, hTest, hValue]

theorem indexKeys_liveValue (p : Property) : (Plain.liveValue scope p).indexKeys = [] := by
  have hKey : ∀ f : FieldDescriptor, (Plain.liveKey f).indexKeys = [] := by
    intro f
    rw [Plain.liveKey]
    split_ifs <;> simp
  have hValue : ∀ f : FieldDescriptor, (Plain.liveMapValue scope f).indexKeys = [] := by
    intro f
    rw [Plain.liveMapValue]
    split <;> simp [Plain.fromPlain]
  have hEntries : ∀ key value : FieldDescriptor,
      (Plain.liveEntries scope key value (p.on "data")).indexKeys = [] := by
    intro key value
    rw [Plain.liveEntries]
    split <;> simp [hKey, hValue]
  rw [Plain.liveValue]
  split <;> simp [Plain.fromPlain, hEntries]

theorem indexKeys_plainValue (p : Property) : (Plain.plainValue scope p).indexKeys = [] := by
  have hEntries : ∀ f, (Plain.plainEntries f p.onThis).indexKeys = [] := by
    intro f
    rw [Plain.plainEntries]
    split <;> simp [Plain.toPlain]
  rw [Plain.plainValue]
  split <;> simp [Plain.toPlain, hEntries]

theorem indexKeys_fromObject :
    (Plain.fromObject scope plan).indexKeys = (scope.plainRecord plan).indexKeys := by
  have hGiven : ∀ p : Property, (Plain.isGiven p).indexKeys = [] := by
    intro p
    rw [Plain.isGiven]
    split <;> simp
  simp [Plain.fromObject, indexKeys_requiredRecord (indexKeys_liveValue scope),
    indexKeys_optionalAssignments hGiven (indexKeys_liveValue scope)]

theorem indexKeys_toObject :
    (Plain.toObject scope plan).indexKeys = (scope.plainRecord plan).indexKeys := by
  have hPresent : ∀ p : Property, (Plain.isPresent p).indexKeys = [] := by
    intro p
    rw [Plain.isPresent]
    split <;> simp
  simp [Plain.toObject, indexKeys_requiredRecord (indexKeys_plainValue scope),
    indexKeys_optionalAssignments hPresent (indexKeys_plainValue scope)]

include unindexed in
/-- The plain object of a message has an index signature for each map, with the type of its keys. -/
theorem mem_indexKeys_plainRecord {type : Ty} :
    type ∈ (scope.plainRecord plan).indexKeys ↔
      ∃ p ∈ plan.properties, ∃ key value, p.content = .map key value ∧ type = key.type := by
  rw [Scope.plainRecord, Ty.indexKeys_ofProperties, List.flatMap_map, List.mem_flatMap]
  refine exists_congr fun p => and_congr_right fun hp => ?_
  obtain ⟨hType, hSides⟩ := unindexed p hp
  show type ∈ (scope.plainProperty p).indexKeys ↔ _
  rw [Scope.plainProperty]
  cases hContent : p.content with
  | map key value =>
      obtain ⟨hKey, hValue⟩ := hSides key value hContent
      -- a message inside a map is told by the type of its `toObject`, which repeats no signature
      have hPlain : (scope.plainMapValue value).indexKeys = [] := by
        rw [Scope.plainMapValue]
        split
        · split
          · exact indexKeys_plainMessage scope _
          · exact hValue
        · exact hValue
      simp [hKey, hPlain]
  | message typeName repeated => cases repeated <;> simp
  | scalar => simp [hType]

include unindexed in
/-- **The index signatures of a class**: the table of each oneof has one with numbers as keys, and
the plain object has one for each map. -/
theorem mem_indexKeys_members {type : Ty} :
    type ∈ (plan.members scope).flatMap Member.indexKeys ↔
      plan.oneofs ≠ [] ∧ type = .named "number" ∨
        ∃ p ∈ plan.properties, ∃ key value, p.content = .map key value ∧ type = key.type := by
  simp only [Plan.members, List.flatMap_append, List.flatMap_cons, List.flatMap_nil,
    indexKeys_constructor scope unindexed, indexKeys_accessors scope unindexed,
    indexKeys_fromObject, indexKeys_toObject, indexKeys_serialize, indexKeys_deserialize,
    indexKeys_byteMethods, List.append_nil, List.nil_append, List.mem_append,
    mem_indexKeys_caseGetters, mem_indexKeys_plainRecord scope unindexed, or_self]

end Members

/-! ## Messages -/

/-- The index signatures in the declarations of several parts are those of some part. -/
theorem mem_indexKeys_parts {α : Type} {emit : α → Except Failure (List Decl)} {parts : List α}
    {groups : List (List Decl)} (h : parts.mapM emit = .ok groups) {type : Ty} {P : α → Prop}
    (hPart : ∀ x ∈ parts, ∀ decls, emit x = .ok decls → (type ∈ indexKeysIn decls ↔ P x)) :
    type ∈ indexKeysIn groups.flatten ↔ ∃ x ∈ parts, P x := by
  rw [indexKeysIn_eq, List.mem_flatMap]
  constructor
  · rintro ⟨decl, hDecl, hType⟩
    obtain ⟨group, hGroup, hDecl⟩ := List.mem_flatten.1 hDecl
    obtain ⟨x, hx, hEmit⟩ := exists_input h hGroup
    refine ⟨x, hx, (hPart x hx group hEmit).1 ?_⟩
    rw [indexKeysIn_eq]
    exact List.mem_flatMap.2 ⟨decl, hDecl, hType⟩
  · rintro ⟨x, hx, hP⟩
    obtain ⟨group, hGroup, hEmit⟩ := exists_output h hx
    have hKey := (hPart x hx group hEmit).2 hP
    rw [indexKeysIn_eq] at hKey
    obtain ⟨decl, hDecl, hType⟩ := List.mem_flatMap.1 hKey
    exact ⟨decl, List.mem_flatten.2 ⟨group, hGroup, hDecl⟩, hType⟩

/-- The key types of the index signatures that a message calls for: numbers where it has oneofs, and
for each field that is typed by a map entry the type of the entry's key. -/
def Scope.CallsForKey (scope : Scope) (m : MessageDescriptor) (type : Ty) : Prop :=
  m.oneofs ≠ [] ∧ type = .named "number" ∨
    ∃ f ∈ m.fields, ∃ entry, scope.mapOf? f = some entry ∧ scope.valueType entry.key = .ok type

/-- The messages that are emitted with a message: itself and, at any depth, those declared in it
that are no map entries. -/
inductive MessageDescriptor.Brings : MessageDescriptor → MessageDescriptor → Prop
  | self {m : MessageDescriptor} : m.Brings m
  | nested {m inner other : MessageDescriptor} (hm : inner ∈ m.ordinaryNested)
      (h : inner.Brings other) : m.Brings other

theorem exists_brings_iff {m : MessageDescriptor} {P : MessageDescriptor → Prop} :
    (∃ other, m.Brings other ∧ P other) ↔
      P m ∨ ∃ inner ∈ m.ordinaryNested, ∃ other, inner.Brings other ∧ P other := by
  constructor
  · rintro ⟨other, hBrings, h⟩
    cases hBrings with
    | self => exact .inl h
    | nested hm hInner => exact .inr ⟨_, hm, other, hInner, h⟩
  · rintro (h | ⟨inner, hm, other, hInner, h⟩)
    · exact ⟨m, .self, h⟩
    · exact ⟨other, .nested hm hInner, h⟩

section Emitted

variable {scope : Scope} {type : Ty}

theorem mem_indexKeys_class {m : MessageDescriptor} {plan : Plan}
    (hPlan : scope.plan m = .ok plan) :
    type ∈ (plan.decl scope).indexKeys ↔ scope.CallsForKey m type := by
  have hMaps : (∃ p ∈ plan.properties, ∃ key value, p.content = .map key value ∧ type = key.type) ↔
      ∃ f ∈ m.fields, ∃ entry, scope.mapOf? f = some entry ∧
        scope.valueType entry.key = .ok type := by
    rw [← plan_descriptors hPlan]
    constructor
    · rintro ⟨p, hp, key, value, hContent, rfl⟩
      obtain ⟨entry, hEntry, hKey, -⟩ := types_of_map hPlan hp hContent
      exact ⟨_, List.mem_map_of_mem hp, entry, hEntry, hKey⟩
    · rintro ⟨f, hf, entry, hEntry, hType⟩
      obtain ⟨p, hp, rfl⟩ := List.mem_map.1 hf
      obtain ⟨key, value, hContent, hKey⟩ := map_of_entry hPlan hp hEntry
      exact ⟨p, hp, key, value, hContent, Except.ok.inj (hType.symm.trans hKey)⟩
  rw [Scope.CallsForKey, ← hMaps, ← (Scope.plan_eq_ok hPlan).1,
    ← mem_indexKeys_members scope fun p hp => unindexed_of_plan hPlan hp]
  simp [Plan.decl, Decl.indexKeys, ClassDecl.indexKeys]

/-- Every message that is emitted has a plan. -/
theorem plan_of_brings {m other : MessageDescriptor} (hBrings : m.Brings other)
    (generated : Succeeds (scope.messageDecls m)) : Succeeds (scope.plan other) := by
  induction hBrings with
  | self =>
      obtain ⟨decls, hDecls⟩ := generated
      obtain ⟨plan, -, hPlan, -⟩ := Scope.messageDecls_eq_ok.1 hDecls
      exact ⟨plan, hPlan⟩
  | nested hm _ ih =>
      obtain ⟨decls, hDecls⟩ := generated
      obtain ⟨-, inner, -, hInner, -⟩ := Scope.messageDecls_eq_ok.1 hDecls
      obtain ⟨groups, hGroups, -⟩ := Scope.nestedDecls_eq_ok.1 hInner
      obtain ⟨group, -, hGroup⟩ := exists_output hGroups hm
      exact ih ⟨group, hGroup⟩

theorem indexKeysIn_innerDecls (name : String) (body : List Decl) :
    indexKeysIn (innerDecls name body) = indexKeysIn body := by
  cases body with
  | nil => rfl
  | cons first others => rw [innerDecls, indexKeysIn, indexKeysIn, List.append_nil, Decl.indexKeys]

theorem indexKeysIn_enums (enums : List EnumDescriptor) :
    indexKeysIn (enums.map EnumDescriptor.decl) = [] := by
  rw [indexKeysIn_eq, List.flatMap_map, List.flatMap_eq_nil_iff]
  exact fun e _ => rfl

theorem sizeOf_lt_of_mem_ordinaryNested {m inner : MessageDescriptor}
    (h : inner ∈ m.ordinaryNested) : sizeOf inner < sizeOf m := by
  obtain ⟨name?, fields, nested, enums, oneofs, isMapEntry⟩ := m
  have hSize : sizeOf inner < sizeOf nested := List.sizeOf_lt_of_mem (List.mem_of_mem_filter h)
  rw [MessageDescriptor.mk.sizeOf_spec]
  omega

/-- **The index signatures in what is emitted for a message.** -/
theorem mem_indexKeys_messageDecls (m : MessageDescriptor) {decls : List Decl}
    (h : scope.messageDecls m = .ok decls) :
    type ∈ indexKeysIn decls ↔ ∃ other, m.Brings other ∧ scope.CallsForKey other type := by
  obtain ⟨plan, inner, hPlan, hInner, rfl⟩ := Scope.messageDecls_eq_ok.1 h
  obtain ⟨groups, hGroups, rfl⟩ := Scope.nestedDecls_eq_ok.1 hInner
  -- by induction on the size of the message: those declared in it are parts of it
  have hNested : type ∈ indexKeysIn groups.flatten ↔
      ∃ inner ∈ m.ordinaryNested, ∃ other, inner.Brings other ∧ scope.CallsForKey other type :=
    mem_indexKeys_parts hGroups fun inner hMem _ hDecls => mem_indexKeys_messageDecls inner hDecls
  rw [indexKeysIn, indexKeysIn_innerDecls, indexKeysIn_append, indexKeysIn_enums, List.nil_append,
    List.mem_append, mem_indexKeys_class hPlan, hNested, exists_brings_iff]
termination_by sizeOf m
decreasing_by exact sizeOf_lt_of_mem_ordinaryNested hMem

end Emitted

end Protoscribe

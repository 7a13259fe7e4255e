import Protoscribe.Message.Record
import Protoscribe.Proofs.Message.Properties
import Protoscribe.Proofs.Message.Supported

set_option autoImplicit false

/-! # What the constructor's record admits

A record is given by the types of the properties that are present on it, and a type says which
records it admits (`Ty.Admits`). Main statement: `signature_admits_iff`, the type of the
constructor's record admits exactly the records on which every property outside the oneofs is
present with its type, or absent where it may be, and of each oneof at most one member is present,
with its type.

The type needs the slots of the fields and their types, not the routines that carry them. So it is
known for some messages that are not generated, and `Scope.signature` is that computation alone;
where there is a plan, it gives `Plan.liveRecord`. It is read through a plan whose contents are
left open (`draft`).
-/

namespace Protoscribe

open TypeScript Checked

/-! ## Records and types -/

namespace TypeScript

/-- A record, by the types of the properties that are present on it. -/
abbrev Presence := String → Option Ty

/-- The type that no value has. -/
def Ty.never : Ty := .named "never"

/-- What an object type asks of one listed property: where it is present it has the listed type,
and it may be absent only if it is marked so. -/
def PropertyType.Holds (p : PropertyType Ty) (r : Presence) : Prop :=
  match r p.name with
  | none => p.optional = true
  | some type => type = p.type ∧ p.type ≠ .never

/-- The records that a type admits. Properties that an object type does not list are not
constrained by it. -/
inductive Ty.Admits (r : Presence) : Ty → Prop
  | record {properties : List (PropertyType Ty)} (h : ∀ p ∈ properties, p.Holds r) :
      Ty.Admits r (.record properties none)
  | union {members : List Ty} {member : Ty} (mem : member ∈ members) (h : Ty.Admits r member) :
      Ty.Admits r (.union members)
  | intersection {members : List Ty} (h : ∀ member ∈ members, Ty.Admits r member) :
      Ty.Admits r (.intersection members)

variable {r : Presence}

theorem admits_ofProperties {properties : List (PropertyType Ty)} :
    (Ty.ofProperties properties).Admits r ↔ ∀ p ∈ properties, p.Holds r := by
  constructor
  · intro h
    cases h with
    | record h => exact h
  · exact .record

theorem admits_union {members : List Ty} :
    (Ty.union members).Admits r ↔ ∃ member ∈ members, member.Admits r := by
  constructor
  · intro h
    cases h with
    | union mem h => exact ⟨_, mem, h⟩
  · rintro ⟨member, mem, h⟩
    exact .union mem h

theorem admits_intersection {members : List Ty} :
    (Ty.intersection members).Admits r ↔ ∀ member ∈ members, member.Admits r := by
  constructor
  · intro h
    cases h with
    | intersection h => exact h
  · exact .intersection

end TypeScript

/-! ## The record of a plan -/

variable {plan : Plan} {r : Presence}

/-- At most one of some properties is present, and that one with its type. -/
def AtMostOne (members : List Property) (r : Presence) : Prop :=
  ∀ p ∈ members, ∀ type, r p.name = some type →
    type = p.type ∧ ∀ q ∈ members, q ≠ p → r q.name = none

/-- An alternative lets the chosen member be present, and no other one. -/
theorem admits_alternative {members : List Property} {chosen : Property}
    (never : ∀ p ∈ members, p.type ≠ .never) :
    (Plan.alternative members chosen).Admits r ↔
      ∀ p ∈ members, ∀ type, r p.name = some type →
        p.number = chosen.number ∧ type = p.type := by
  rw [Plan.alternative, admits_ofProperties, List.forall_mem_map]
  apply forall₂_congr
  intro p hp
  have hNever := never p hp
  simp only [PropertyType.Holds]
  cases r p.name with
  | none => simp
  | some type =>
      by_cases hNumber : p.number = chosen.number
      · simp [hNumber, hNever]
      · simp [hNumber, Ty.never]

/-- **The alternatives of a oneof admit the records with at most one of its members.** -/
theorem admits_alternatives {members : List Property} (hMembers : members ≠ [])
    (distinct : (members.map Property.number).Nodup) (never : ∀ p ∈ members, p.type ≠ .never) :
    (Ty.union (members.map (Plan.alternative members))).Admits r ↔ AtMostOne members r := by
  rw [admits_union]
  simp only [List.mem_map, exists_exists_and_eq_and, admits_alternative never]
  constructor
  · rintro ⟨chosen, hChosen, h⟩ p hp type hPresent
    obtain ⟨hNumber, hType⟩ := h p hp type hPresent
    refine ⟨hType, fun q hq hOther => ?_⟩
    -- a second member that is present would have the number of the chosen one, too
    by_contra hSecond
    obtain ⟨other, hOtherPresent⟩ := Option.ne_none_iff_exists'.1 hSecond
    obtain ⟨hOtherNumber, -⟩ := h q hq other hOtherPresent
    exact hOther (List.inj_on_of_nodup_map distinct hq hp (hOtherNumber.trans hNumber.symm))
  · intro h
    by_cases hPresent : ∃ p ∈ members, r p.name ≠ none
    · obtain ⟨p, hp, hSome⟩ := hPresent
      obtain ⟨type, hType⟩ := Option.ne_none_iff_exists'.1 hSome
      obtain ⟨-, hOthers⟩ := h p hp type hType
      refine ⟨p, hp, fun q hq other hOther => ?_⟩
      have hSame : q = p := by
        by_contra hDifferent
        rw [hOthers q hq hDifferent] at hOther
        cases hOther
      exact ⟨by rw [hSame], (h q hq other hOther).1⟩
    · -- nothing is present, and every alternative allows that
      obtain ⟨first, hFirst⟩ := List.exists_mem_of_ne_nil members hMembers
      refine ⟨first, hFirst, fun q hq other hOther => ?_⟩
      exact absurd ⟨q, hq, by simp [hOther]⟩ hPresent

theorem admits_liveRecord : plan.liveRecord.Admits r ↔
    plan.ungroupedRecord.Admits r ∧
      ∀ index < plan.oneofs.length, ∀ type ∈ plan.alternatives? index, type.Admits r := by
  rw [Plan.liveRecord]
  cases hOneofs : plan.oneofs with
  | nil => simp
  | cons first others =>
      rw [admits_intersection, List.forall_mem_cons]
      refine and_congr_right fun _ => ?_
      simp only [List.mem_filterMap, List.mem_range, forall_exists_index, and_imp, Option.mem_def]
      exact ⟨fun h index hIndex type hType => h type index hIndex hType,
        fun h type index hIndex hType => h index hIndex type hType⟩

/-- **The record of a plan** admits the records with at most one member of each oneof. -/
theorem liveRecord_admits_iff (distinct : (plan.properties.map Property.number).Nodup)
    (never : ∀ p ∈ plan.properties, p.type ≠ .never) :
    plan.liveRecord.Admits r ↔
      (∀ p ∈ plan.ungrouped, (r p.name = none ∧ p.optional = true) ∨ r p.name = some p.type) ∧
      ∀ index < plan.oneofs.length, AtMostOne (plan.group index) r := by
  rw [admits_liveRecord, Plan.ungroupedRecord, admits_ofProperties, List.forall_mem_map]
  refine and_congr (forall₂_congr fun p hp => ?_) (forall₂_congr fun index _ => ?_)
  · have hNever := never p (List.mem_of_mem_filter hp)
    simp only [PropertyType.Holds]
    cases r p.name with
    | none => simp
    | some type => simp [hNever]
  · have hDistinct : ((plan.group index).map Property.number).Nodup :=
      distinct.sublist (List.filter_sublist.map _)
    have hNever : ∀ p ∈ plan.group index, p.type ≠ .never :=
      fun p hp => never p (List.mem_of_mem_filter hp)
    rw [Plan.alternatives?]
    split
    · rename_i hEmpty
      simp [hEmpty, AtMostOne]
    · rename_i members hMembers
      simp only [Option.mem_def, Option.some.injEq, forall_eq']
      exact admits_alternatives hMembers hDistinct hNever


/-! ## The type as a computation of its own -/

namespace Scope

/-- A property of the record with the type of its slot. -/
def listed (scope : Scope) (optional : Bool) (slot : Slot) : Except Failure (PropertyType Ty) := do
  let type ← scope.slotType slot
  return ⟨slot.name, optional, type⟩

/-- The alternative of a oneof in which `chosen` may be present. -/
def listedAlternative (scope : Scope) (members : List Slot) (chosen : Slot) :
    Except Failure Ty := do
  let properties ← members.mapM fun member =>
    if member.number = chosen.number then scope.listed true member
    else return ⟨member.name, true, .never⟩
  return .ofProperties properties

/-- The alternatives of the oneof at a position; none when it has no members. -/
def listedAlternatives (scope : Scope) (slots : List Slot) (index : Nat) :
    Except Failure (Option Ty) :=
  match slotsOf slots index with
  | [] => return none
  | members => do
    let alternatives ← members.mapM (scope.listedAlternative members)
    return some (.union alternatives)

/-- The type of the record that the constructor takes, from the slots of a message and their
types. -/
def signature (scope : Scope) (m : MessageDescriptor) : Except Failure Ty := do
  let slots ← scope.slots m
  let properties ← (slots.filter (·.oneof.isNone)).mapM fun slot => scope.listed slot.optional slot
  match m.oneofs with
  | [] => return .ofProperties properties
  | _ :: _ => do
    let groups ← (List.range m.oneofs.length).mapM (scope.listedAlternatives slots)
    return .intersection (.ofProperties properties :: groups.filterMap id)

end Scope

/-- A plan that has the slots of a message and their types, whatever its contents are. -/
structure Scope.Typed (scope : Scope) (m : MessageDescriptor) (plan : Plan) : Prop where
  oneofs : plan.oneofs = m.oneofs
  slots : scope.slots m = .ok (plan.properties.map Property.slot)
  types : ∀ p ∈ plan.properties, scope.slotType p.slot = .ok p.type

section Typed

variable {scope : Scope} {m : MessageDescriptor}

/-- A list of parts that all give a result gives the list of the results. -/
theorem mapM_map_eq_ok {α β γ : Type} {f : β → Except Failure γ} {part : α → β} {g : α → γ}
    {xs : List α} (h : ∀ x ∈ xs, f (part x) = .ok (g x)) :
    (xs.map part).mapM f = .ok (xs.map g) := by
  rw [mapM_eq_ok, List.forall₂_map_left_iff, List.forall₂_map_right_iff, List.forall₂_same]
  exact h

theorem slotsOf_properties (index : Nat) :
    slotsOf (plan.properties.map Property.slot) index =
      (plan.group index).map Property.slot := by
  rw [slotsOf, List.filter_map]
  rfl

theorem listed_slot {optional : Bool} {p : Property} (h : scope.slotType p.slot = .ok p.type) :
    scope.listed optional p.slot = .ok ⟨p.name, optional, p.type⟩ := by
  rw [Scope.listed, h]
  rfl

theorem listedAlternative_slot {members : List Property}
    (types : ∀ p ∈ members, scope.slotType p.slot = .ok p.type) (chosen : Property) :
    scope.listedAlternative (members.map Property.slot) chosen.slot =
      .ok (Plan.alternative members chosen) := by
  refine bind_eq_ok.2 ⟨_, mapM_map_eq_ok fun p hp => ?_, rfl⟩
  by_cases hNumber : p.slot.number = chosen.slot.number
  · rw [if_pos hNumber, show p.number = chosen.number from hNumber, if_pos rfl]
    exact listed_slot (types p hp)
  · rw [if_neg hNumber, if_neg (show ¬ p.number = chosen.number from hNumber)]
    rfl

theorem listedAlternatives_slots (types : ∀ p ∈ plan.properties, scope.slotType p.slot = .ok p.type)
    (index : Nat) : scope.listedAlternatives (plan.properties.map Property.slot) index =
      .ok (plan.alternatives? index) := by
  have hTypes : ∀ p ∈ plan.group index, scope.slotType p.slot = .ok p.type :=
    fun p hp => types p (List.mem_of_mem_filter hp)
  rw [Scope.listedAlternatives, Plan.alternatives?, slotsOf_properties]
  cases hMembers : plan.group index with
  | nil => rfl
  | cons first others =>
      rw [hMembers] at hTypes
      exact bind_eq_ok.2
        ⟨_, mapM_map_eq_ok fun chosen _ => listedAlternative_slot hTypes chosen, rfl⟩

/-- Where the slots of a message have types, the computation gives the record of the plan. -/
theorem Scope.Typed.signature_eq (typed : scope.Typed m plan) :
    scope.signature m = .ok plan.liveRecord := by
  have hUngrouped : ((plan.properties.map Property.slot).filter (·.oneof.isNone)).mapM
      (fun slot => scope.listed slot.optional slot) =
        .ok (plan.ungrouped.map fun p => ⟨p.name, p.optional, p.type⟩) := by
    rw [List.filter_map]
    exact mapM_map_eq_ok fun p hp => listed_slot (typed.types p (List.mem_of_mem_filter hp))
  have hGroups : (List.range m.oneofs.length).mapM
      (scope.listedAlternatives (plan.properties.map Property.slot)) =
        .ok ((List.range m.oneofs.length).map plan.alternatives?) := by
    rw [← List.map_id (List.range m.oneofs.length), List.map_map]
    exact mapM_map_eq_ok fun index _ => listedAlternatives_slots typed.types index
  refine bind_eq_ok.2 ⟨_, typed.slots, bind_eq_ok.2 ⟨_, hUngrouped, ?_⟩⟩
  rw [Plan.liveRecord, typed.oneofs]
  cases hOneofs : m.oneofs with
  | nil => rfl
  | cons first others =>
      rw [hOneofs] at hGroups
      refine bind_eq_ok.2 ⟨_, hGroups, ?_⟩
      rw [List.filterMap_map, Function.id_comp]
      rfl

/-- A plan is typed whose properties come from the slots of the message, each with its type. -/
theorem typed_of_properties {slots : List Slot} {complete : Slot → Except Failure Property}
    (hOneofs : plan.oneofs = m.oneofs) (hSlots : scope.slots m = .ok slots)
    (hProperties : slots.mapM complete = .ok plan.properties)
    (hComplete : ∀ slot p, complete slot = .ok p →
      p.slot = slot ∧ scope.slotType slot = .ok p.type) : scope.Typed m plan := by
  have hAll := mapM_eq_ok.1 hProperties
  have hBack : slots = plan.properties.map Property.slot := by
    rw [← List.forall₂_eq_eq_eq, List.forall₂_map_right_iff]
    exact hAll.imp fun slot p h => (hComplete slot p h).1.symm
  refine ⟨hOneofs, by rw [hSlots, hBack], fun p hp => ?_⟩
  obtain ⟨slot, -, hSlot⟩ := exists_input hProperties hp
  obtain ⟨rfl, hType⟩ := hComplete slot p hSlot
  exact hType

/-- The plan of a message has the types of its slots. -/
theorem typed_of_plan (h : scope.plan m = .ok plan) : scope.Typed m plan := by
  obtain ⟨hOneofs, slots, hSlots, hProperties⟩ := Scope.plan_eq_ok h
  refine typed_of_properties hOneofs hSlots hProperties fun slot p hp => ?_
  obtain ⟨type, hType, h⟩ := bind_eq_ok.1 hp
  obtain ⟨content, -, h⟩ := bind_eq_ok.1 h
  obtain rfl := pure_eq_ok.1 h
  exact ⟨rfl, hType⟩

/-- The property of a slot, with its content left open. -/
def Scope.draft (scope : Scope) (slot : Slot) : Except Failure Property := do
  let type ← scope.slotType slot
  return ⟨slot, type, .scalar false false "" ""⟩

/-- The position of a field's oneof is a position among the oneofs. -/
theorem oneof?_lt (inRange : m.OneofsInRange) {f : FieldDescriptor} (hf : f ∈ m.fields)
    {index : Nat} (h : f.oneof? = some index) : index < m.oneofs.length := by
  obtain ⟨declared, hDeclared, rfl⟩ := Option.map_eq_some_iff.1 h
  obtain ⟨hLow, hHigh⟩ := inRange f hf declared hDeclared
  rw [UInt64.size]
  omega

/-- The type is known only if every slot has a type. -/
theorem slotType_of_signature {type : Ty} {slots : List Slot} (hSlots : scope.slots m = .ok slots)
    (h : scope.signature m = .ok type) (inRange : m.OneofsInRange) :
    ∀ slot ∈ slots, Succeeds (scope.slotType slot) := by
  have hListed : ∀ {optional slot property}, scope.listed optional slot = .ok property →
      Succeeds (scope.slotType slot) := by
    intro optional slot property hProperty
    obtain ⟨type, hType, -⟩ := bind_eq_ok.1 hProperty
    exact ⟨type, hType⟩
  obtain ⟨slots', hSlots', h⟩ := bind_eq_ok.1 h
  obtain rfl : slots = slots' := Except.ok.inj (hSlots.symm.trans hSlots')
  obtain ⟨properties, hProperties, h⟩ := bind_eq_ok.1 h
  intro slot hSlot
  cases hOneof : slot.oneof with
  | none =>
      obtain ⟨property, -, hProperty⟩ := exists_output hProperties
        (List.mem_filter.2 ⟨hSlot, by simp [hOneof]⟩)
      exact hListed hProperty
  | some index =>
      obtain ⟨f, hf, hSlotOf⟩ := exists_input hSlots hSlot
      have hIndex : index < m.oneofs.length := by
        obtain ⟨-, rfl⟩ := Scope.slot_eq_ok.1 hSlotOf
        exact oneof?_lt inRange hf hOneof
      -- the slot is the chosen member of one of the alternatives of its oneof
      have hMember : slot ∈ slotsOf slots index := List.mem_filter.2 ⟨hSlot, by simp [hOneof]⟩
      have hGroup : ∃ group, scope.listedAlternatives slots index = .ok group := by
        cases hOneofs : m.oneofs with
        | nil => simp [hOneofs] at hIndex
        | cons first others =>
            rw [hOneofs] at h hIndex
            obtain ⟨groups, hGroups, -⟩ := bind_eq_ok.1 h
            obtain ⟨group, -, hGroup⟩ := exists_output hGroups (List.mem_range.2 hIndex)
            exact ⟨group, hGroup⟩
      obtain ⟨group, hGroup⟩ := hGroup
      rw [Scope.listedAlternatives] at hGroup
      obtain ⟨first, others, hMembers⟩ :=
        List.exists_cons_of_ne_nil (List.ne_nil_of_mem hMember)
      rw [hMembers] at hGroup hMember
      obtain ⟨alternatives, hAlternatives, -⟩ := bind_eq_ok.1 hGroup
      obtain ⟨alternative, -, hAlternative⟩ := exists_output hAlternatives hMember
      obtain ⟨listed, hAll, -⟩ := bind_eq_ok.1 hAlternative
      obtain ⟨property, -, hProperty⟩ := exists_output hAll hMember
      rw [if_pos rfl] at hProperty
      exact hListed hProperty

/-- Where the type is known, it is the record of a typed plan. -/
theorem exists_typed {type : Ty} (h : scope.signature m = .ok type) (inRange : m.OneofsInRange) :
    ∃ plan, scope.Typed m plan ∧ plan.liveRecord = type := by
  obtain ⟨slots, hSlots, -⟩ := bind_eq_ok.1 h
  have hTypes := slotType_of_signature hSlots h inRange
  obtain ⟨properties, hProperties⟩ : Succeeds (slots.mapM scope.draft) :=
    mapM_succeeds.2 fun slot hSlot =>
      (bind_succeeds_of_total fun _ => succeeds_pure _).2 (hTypes slot hSlot)
  have hTyped : scope.Typed m ⟨m.name, properties, m.oneofs⟩ := by
    refine typed_of_properties rfl hSlots hProperties fun slot p hp => ?_
    obtain ⟨type, hType, hp⟩ := bind_eq_ok.1 hp
    obtain rfl := pure_eq_ok.1 hp
    exact ⟨rfl, hType⟩
  exact ⟨_, hTyped, Except.ok.inj (hTyped.signature_eq.symm.trans h)⟩

/-! ## In terms of the fields -/

/-- The records from which a message can be constructed: a field outside the oneofs is present with
its type, or absent where it may be, and of each oneof at most one member is present, with its
type. -/
structure Scope.Constructible (scope : Scope) (m : MessageDescriptor) (r : Presence) : Prop where
  ungrouped : ∀ f ∈ m.fields, f.oneof? = none →
    (r f.name = none ∧ scope.file.mayOmit f = true) ∨
      ∃ type, r f.name = some type ∧ scope.propertyType f = .ok type
  grouped : ∀ index < m.oneofs.length, ∀ f ∈ m.fields, f.oneof? = some index →
    ∀ type, r f.name = some type → scope.propertyType f = .ok type ∧
      ∀ g ∈ m.fields, g.oneof? = some index → g ≠ f → r g.name = none

/-- A property that stands for a field. -/
structure Scope.Presents (scope : Scope) (p : Property) (f : FieldDescriptor) : Prop where
  name : p.name = f.name
  number : p.number = f.number
  optional : p.optional = scope.file.mayOmit f
  oneof : p.slot.oneof = f.oneof?
  type : scope.propertyType f = .ok p.type

theorem presents_of_slot {p : Property} {f : FieldDescriptor} (hSlot : scope.slot f = .ok p.slot)
    (hType : scope.slotType p.slot = .ok p.type) : scope.Presents p f := by
  obtain ⟨-, h⟩ := Scope.slot_eq_ok.1 hSlot
  rw [Scope.slotType, h] at hType
  exact ⟨congrArg Slot.name h, congrArg Slot.number h, congrArg Slot.optional h,
    congrArg Slot.oneof h, hType⟩

namespace Scope.Typed

variable (typed : scope.Typed m plan)

include typed

/-- Every property comes from a field. -/
theorem field {p : Property} (hp : p ∈ plan.properties) : ∃ f ∈ m.fields, scope.Presents p f := by
  obtain ⟨f, hf, hSlot⟩ := exists_input typed.slots (List.mem_map_of_mem hp)
  exact ⟨f, hf, presents_of_slot hSlot (typed.types p hp)⟩

/-- Every field has a property. -/
theorem property {f : FieldDescriptor} (hf : f ∈ m.fields) :
    ∃ p ∈ plan.properties, scope.Presents p f := by
  obtain ⟨slot, hMem, hSlot⟩ := exists_output typed.slots hf
  obtain ⟨p, hp, rfl⟩ := List.mem_map.1 hMem
  exact ⟨p, hp, presents_of_slot hSlot (typed.types p hp)⟩

theorem numbers : plan.properties.map Property.number = m.fields.map FieldDescriptor.number := by
  have hAll := mapM_eq_ok.1 typed.slots
  rw [← List.forall₂_eq_eq_eq, List.forall₂_map_left_iff, List.forall₂_map_right_iff]
  rw [List.forall₂_map_right_iff] at hAll
  refine hAll.flip.imp fun p f h => ?_
  obtain ⟨-, hSlot⟩ := Scope.slot_eq_ok.1 h
  exact congrArg Slot.number hSlot

end Scope.Typed

/-- Two properties are the same exactly when their fields are. -/
theorem presents_inj (typed : scope.Typed m plan) (distinct : m.DistinctNumbers)
    {p q : Property} (hp : p ∈ plan.properties) (hq : q ∈ plan.properties)
    {f g : FieldDescriptor} (hf : f ∈ m.fields) (hg : g ∈ m.fields) (hpf : scope.Presents p f)
    (hqg : scope.Presents q g) : q = p ↔ g = f := by
  have hDistinct : (plan.properties.map Property.number).Nodup := typed.numbers ▸ distinct
  constructor
  · rintro rfl
    exact List.inj_on_of_nodup_map distinct hg hf (hqg.number.symm.trans hpf.number)
  · rintro rfl
    exact List.inj_on_of_nodup_map hDistinct hq hp (hqg.number.trans hpf.number.symm)

theorem constructible_iff (typed : scope.Typed m plan) (distinct : m.DistinctNumbers) :
    scope.Constructible m r ↔
      (∀ p ∈ plan.ungrouped, (r p.name = none ∧ p.optional = true) ∨ r p.name = some p.type) ∧
      ∀ index < plan.oneofs.length, AtMostOne (plan.group index) r := by
  rw [typed.oneofs]
  constructor
  · rintro ⟨hUngrouped, hGrouped⟩
    refine ⟨fun p hp => ?_, fun index hIndex p hp type hPresent => ?_⟩
    · obtain ⟨hp, hNone⟩ := List.mem_filter.1 hp
      obtain ⟨f, hf, hpf⟩ := typed.field hp
      rw [hpf.oneof, Option.isNone_iff_eq_none] at hNone
      rw [hpf.name, hpf.optional]
      refine (hUngrouped f hf hNone).imp_right ?_
      rintro ⟨type, hPresent, hType⟩
      rw [hPresent, Except.ok.inj (hType.symm.trans hpf.type)]
    · obtain ⟨hp, hIn⟩ := mem_group.1 hp
      obtain ⟨f, hf, hpf⟩ := typed.field hp
      obtain ⟨hType, hOthers⟩ :=
        hGrouped index hIndex f hf (hpf.oneof ▸ hIn) type (hpf.name ▸ hPresent)
      refine ⟨Except.ok.inj (hType.symm.trans hpf.type), fun q hq hOther => ?_⟩
      obtain ⟨hq, hqIn⟩ := mem_group.1 hq
      obtain ⟨g, hg, hqg⟩ := typed.field hq
      rw [hqg.name]
      exact hOthers g hg (hqg.oneof ▸ hqIn)
        (mt (presents_inj typed distinct hp hq hf hg hpf hqg).2 hOther)
  · rintro ⟨hUngrouped, hGrouped⟩
    refine ⟨fun f hf hNone => ?_, fun index hIndex f hf hIn type hPresent => ?_⟩
    · obtain ⟨p, hp, hpf⟩ := typed.property hf
      have hProperty := hUngrouped p (List.mem_filter.2 ⟨hp, by simp [hpf.oneof, hNone]⟩)
      rw [hpf.name, hpf.optional] at hProperty
      exact hProperty.imp_right fun hPresent => ⟨_, hPresent, hpf.type⟩
    · obtain ⟨p, hp, hpf⟩ := typed.property hf
      obtain ⟨hType, hOthers⟩ := hGrouped index hIndex p
        (mem_group.2 ⟨hp, hpf.oneof.trans hIn⟩) type (hpf.name ▸ hPresent)
      refine ⟨hType ▸ hpf.type, fun g hg hgIn hOther => ?_⟩
      obtain ⟨q, hq, hqg⟩ := typed.property hg
      rw [← hqg.name]
      exact hOthers q (mem_group.2 ⟨hq, hqg.oneof.trans hgIn⟩)
        (mt (presents_inj typed distinct hp hq hf hg hpf hqg).1 hOther)

/-- **The constructor's record admits exactly the records with at most one member of each oneof.**
Where the type of the record is known, it is the one in the plan of the message, if there is a
plan; and it admits a record exactly when every field outside the oneofs is present with its type,
or absent where it may be, and of each oneof at most one member is present, with its type. -/
theorem signature_admits_iff {type : Ty} (h : scope.signature m = .ok type)
    (distinct : m.DistinctNumbers) (inRange : m.OneofsInRange)
    (never : ∀ f ∈ m.fields, scope.propertyType f ≠ .ok .never) :
    (∀ plan, scope.plan m = .ok plan → plan.liveRecord = type) ∧
      ∀ r : Presence, type.Admits r ↔ scope.Constructible m r := by
  constructor
  · intro plan hPlan
    exact Except.ok.inj ((typed_of_plan hPlan).signature_eq.symm.trans h)
  · intro r
    obtain ⟨plan, typed, rfl⟩ := exists_typed h inRange
    have hDistinct : (plan.properties.map Property.number).Nodup := typed.numbers ▸ distinct
    have hNever : ∀ p ∈ plan.properties, p.type ≠ .never := by
      intro p hp hType
      obtain ⟨f, hf, hpf⟩ := typed.field hp
      exact never f hf (hType ▸ hpf.type)
    rw [liveRecord_admits_iff hDistinct hNever, constructible_iff typed distinct]

end Typed

/-- A repeated text. -/
def labelsField : FieldDescriptor :=
  ⟨some "labels", some 1, .repeated, some 9, none, "", none, false, false, false⟩

/-- A number in the first oneof. -/
def identField : FieldDescriptor :=
  ⟨some "ident", some 2, .optional, some 5, none, "", some 0, false, false, false⟩

/-- A text in the first oneof. -/
def nicknameField : FieldDescriptor :=
  ⟨some "nickname", some 3, .optional, some 9, none, "", some 0, false, false, false⟩

/-- A message with a list outside its oneof of a number and a text. -/
def labelled : MessageDescriptor :=
  ⟨some "Labelled", [labelsField, identField, nicknameField], [], [], ["key"], false⟩

/-- A record with the list and one member of the oneof. -/
def nicknamed : Presence := fun name =>
  if name = "labels" then some (.array (.named "string"))
  else if name = "nickname" then some (.named "string")
  else none

theorem signature_admits_nicknamed :
    let scope : Scope := .ofFile .empty .blank
    ∃ type, scope.signature labelled = .ok type ∧ labelled.DistinctNumbers ∧
      labelled.OneofsInRange ∧ (∀ f ∈ labelled.fields, scope.propertyType f ≠ .ok .never) ∧
      type.Admits nicknamed ∧ ¬ type.Admits fun _ => some (.named "string") := by
  intro scope
  obtain ⟨type, hType⟩ : ∃ type, scope.signature labelled = .ok type := ⟨_, rfl⟩
  have hDistinct : labelled.DistinctNumbers := by
    rw [MessageDescriptor.DistinctNumbers]
    decide
  have hInRange : labelled.OneofsInRange := by
    rw [MessageDescriptor.OneofsInRange]
    decide
  have hLabels : scope.propertyType labelsField = .ok (.array (.named "string")) := rfl
  have hIdent : scope.propertyType identField = .ok (.named "number") := rfl
  have hNickname : scope.propertyType nicknameField = .ok (.named "string") := rfl
  have hNever : ∀ f ∈ labelled.fields, scope.propertyType f ≠ .ok .never := by
    simp [labelled, hLabels, hIdent, hNickname, Ty.never, Ty.named]
  obtain ⟨-, hAdmits⟩ := signature_admits_iff hType hDistinct hInRange hNever
  refine ⟨type, hType, hDistinct, hInRange, hNever, (hAdmits _).2 ⟨?_, ?_⟩, fun h => ?_⟩
  · intro f hf hNone
    simp only [labelled, List.mem_cons, List.not_mem_nil, or_false] at hf
    rcases hf with rfl | rfl | rfl
    · exact Or.inr ⟨_, rfl, hLabels⟩
    · cases hNone
    · cases hNone
  · intro index _ f hf hIn type hPresent
    simp only [labelled, List.mem_cons, List.not_mem_nil, or_false] at hf
    rcases hf with rfl | rfl | rfl
    · cases hIn
    · cases hPresent
    · cases hPresent
      refine ⟨hNickname, fun g hg hgIn hOther => ?_⟩
      simp only [labelled, List.mem_cons, List.not_mem_nil, or_false] at hg
      rcases hg with rfl | rfl | rfl
      · cases hgIn
      · rfl
      · exact absurd rfl hOther
  · -- with every property present, two members of the oneof are
    have hSecond := (((hAdmits _).1 h).grouped 0 (by decide) nicknameField (by simp [labelled]) rfl _
      rfl).2 identField (by simp [labelled]) rfl (by decide)
    cases hSecond

end Protoscribe

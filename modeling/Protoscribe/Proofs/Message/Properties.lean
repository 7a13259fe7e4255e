import Mathlib.Data.List.Nodup
import Protoscribe.Message.Emission
import Protoscribe.Proofs.Checked

set_option autoImplicit false

/-! # The properties of a plan

A planned message has one property for each field, in their order (`plan_descriptors`), and each
property comes from its field (`property_of_plan`). Where the numbers of the fields are distinct, a
number belongs to one property. The numbers of a oneof are those of its properties
(`numbersBeside?_eq`).
-/

namespace Protoscribe

open Checked

variable {scope : Scope} {m : MessageDescriptor} {plan : Plan}

/-! ## Where a plan comes from -/

theorem Scope.plan_eq_ok (h : scope.plan m = .ok plan) :
    plan.oneofs = m.oneofs ∧ ∃ slots, scope.slots m = .ok slots ∧
      slots.mapM scope.property = .ok plan.properties := by
  rw [Scope.plan] at h
  cases hName : m.name? with
  | none => simp [hName] at h
  | some name =>
      rw [hName] at h
      obtain ⟨properties, hProperties, h⟩ := bind_eq_ok.1 h
      obtain rfl := pure_eq_ok.1 h
      obtain ⟨slots, hSlots, hProperties⟩ := bind_eq_ok.1 hProperties
      obtain ⟨-, -, hProperties⟩ := bind_eq_ok.1 hProperties
      exact ⟨rfl, slots, hSlots, hProperties⟩

theorem slot_of_property {slot : Slot} {p : Property} (h : scope.property slot = .ok p) :
    p.slot = slot ∧ scope.content slot = .ok p.content := by
  obtain ⟨type, -, h⟩ := bind_eq_ok.1 h
  obtain ⟨content, hContent, h⟩ := bind_eq_ok.1 h
  obtain rfl := pure_eq_ok.1 h
  exact ⟨rfl, hContent⟩

/-- A plan has a property for each field, in their order. -/
theorem plan_descriptors (h : scope.plan m = .ok plan) :
    plan.properties.map (·.slot.descriptor) = m.fields := by
  obtain ⟨-, slots, hSlots, hProperties⟩ := Scope.plan_eq_ok h
  have hFields : slots.map Slot.descriptor = m.fields := by
    have hAll := mapM_eq_ok.1 hSlots
    clear hSlots hProperties
    generalize m.fields = fields at hAll
    induction hAll with
    | nil => rfl
    | cons hSlot _ ih =>
        rw [Scope.slot] at hSlot
        split at hSlot
        · cases hSlot
        · cases hSlot
          rw [List.map_cons, ih]
  have hSlotsBack : plan.properties.map Property.slot = slots := by
    have hAll := mapM_eq_ok.1 hProperties
    clear hSlots hProperties hFields
    generalize plan.properties = properties at hAll
    induction hAll with
    | nil => rfl
    | cons hProperty _ ih => rw [List.map_cons, ih, (slot_of_property hProperty).1]
  rw [← hFields, ← hSlotsBack, List.map_map]
  rfl

/-- The property of a field has the slot of the field and the content of the slot. -/
theorem property_of_plan (h : scope.plan m = .ok plan) {p : Property} (hp : p ∈ plan.properties) :
    p.slot.descriptor ∈ m.fields ∧ scope.slot p.slot.descriptor = .ok p.slot ∧
      scope.content p.slot = .ok p.content := by
  obtain ⟨-, slots, hSlots, hProperties⟩ := Scope.plan_eq_ok h
  obtain ⟨slot, hSlotMem, hProperty⟩ := exists_input hProperties hp
  obtain ⟨rfl, hContent⟩ := slot_of_property hProperty
  obtain ⟨f, hf, hSlot⟩ := exists_input hSlots hSlotMem
  have hDescriptor : p.slot.descriptor = f := by
    rw [Scope.slot] at hSlot
    split at hSlot
    · cases hSlot
    · exact (congrArg Slot.descriptor (Except.ok.inj hSlot)).symm
  rw [hDescriptor]
  exact ⟨hf, hSlot, hContent⟩

theorem Property.isMap_iff {p : Property} :
    p.isMap ↔ ∃ key value, p.content = .map key value := by
  rw [Property.isMap]
  cases p.content <;> simp

/-! ## Numbers -/

/-- The numbers of the fields are distinct. -/
def MessageDescriptor.DistinctNumbers (m : MessageDescriptor) : Prop :=
  (m.fields.map FieldDescriptor.number).Nodup

/-- Every field that names a oneof names one that the message has. -/
def MessageDescriptor.OneofsInRange (m : MessageDescriptor) : Prop :=
  ∀ f ∈ m.fields, ∀ index, f.oneofIndex? = some index → 0 ≤ index ∧ index < m.oneofs.length

theorem nodup_numbers (h : scope.plan m = .ok plan) (distinct : m.DistinctNumbers) :
    (plan.properties.map Property.number).Nodup := by
  have hNumbers : plan.properties.map Property.number = m.fields.map FieldDescriptor.number := by
    rw [← plan_descriptors h, List.map_map]
    rfl
  rw [hNumbers]
  exact distinct

theorem eq_of_number_eq (h : scope.plan m = .ok plan) (distinct : m.DistinctNumbers)
    {p q : Property} (hp : p ∈ plan.properties) (hq : q ∈ plan.properties)
    (hNumber : p.number = q.number) : p = q :=
  List.inj_on_of_nodup_map (nodup_numbers h distinct) hp hq hNumber

/-! ## Oneofs -/

theorem mem_group {index : Nat} {p : Property} :
    p ∈ plan.group index ↔ p ∈ plan.properties ∧ p.slot.oneof = some index := by
  simp [Plan.group]

theorem oneof_lt (h : scope.plan m = .ok plan) (inRange : m.OneofsInRange) {p : Property}
    (hp : p ∈ plan.properties) {index : Nat} (hIndex : p.slot.oneof = some index) :
    index < plan.oneofs.length := by
  obtain ⟨hField, hSlot, -⟩ := property_of_plan h hp
  have hOneof : p.slot.oneof = p.slot.descriptor.oneof? := by
    rw [Scope.slot] at hSlot
    split at hSlot
    · cases hSlot
    · exact (congrArg Slot.oneof (Except.ok.inj hSlot)).symm
  rw [hOneof, FieldDescriptor.oneof?, Option.map_eq_some_iff] at hIndex
  obtain ⟨declared, hDeclared, rfl⟩ := hIndex
  obtain ⟨hLow, hHigh⟩ := inRange _ hField declared hDeclared
  rw [(Scope.plan_eq_ok h).1, UInt64.size]
  omega

/-- The numbers of a oneof are the numbers of its properties. -/
theorem groupNumbers_getElem? {index : Nat} (h : index < plan.oneofs.length) :
    plan.groupNumbers[index]? = some ((plan.group index).map Property.number) := by
  rw [Plan.groupNumbers, oneofNumbers, List.getElem?_map, List.getElem?_range h, Option.map_some,
    slotsOf, List.filter_map, List.map_map]
  rfl

theorem numbersBeside?_eq {p : Property} {index : Nat} (hIndex : p.slot.oneof = some index)
    (h : index < plan.oneofs.length) :
    plan.numbersBeside? p = some ((plan.group index).map Property.number) := by
  rw [Plan.numbersBeside?, hIndex, Option.bind_some, groupNumbers_getElem? h]

theorem numbersBeside?_none {p : Property} (h : p.slot.oneof = none) :
    plan.numbersBeside? p = none := by
  rw [Plan.numbersBeside?, h, Option.bind_none]

end Protoscribe

import Protoscribe.Message.Emission
import Protoscribe.Proofs.Checked

set_option autoImplicit false

/-! # Which messages can be generated

Code is generated for a message unless it has no name, has a field that nothing can carry, or
declares such a message (`Registry.Rejects`, `Registry.RejectsMessage`). A field cannot be carried
when it is a group, or a map with a group as key or value. Main statement: `messageDecls_succeeds`.

The statements are about registries in which no map has maps as keys or values (`Registry.Flat`).
There the type of a field is found after at most one step through a map entry.
-/

namespace Protoscribe

open Checked

/-! ## What is rejected -/

namespace Registry

/-- The key and value fields of the map entry that a field is typed by. -/
def entryOf? (registry : Registry) (f : FieldDescriptor) : Option MapEntry :=
  f.typeName?.bind registry.mapOf?

/-- No key and no value of a map is itself typed by a map entry. -/
def Flat (registry : Registry) : Prop :=
  ∀ typeName entry, registry.mapOf? typeName = some entry →
    registry.entryOf? entry.key = none ∧ registry.entryOf? entry.value = none

/-- A field that no code can carry: a group, or a map with a group as key or value. -/
def Rejects (registry : Registry) (f : FieldDescriptor) : Prop :=
  f.type = .group ∨ ∃ entry, registry.entryOf? f = some entry ∧
    (entry.key.type = .group ∨ entry.value.type = .group)

/-- A message that is not generated: it has no name, or a field that no code can carry, or
declares such a message. The map entries declared in a message do not count. -/
inductive RejectsMessage (registry : Registry) : MessageDescriptor → Prop
  | unnamed {m} (h : m.name? = none) : RejectsMessage registry m
  | field {m f} (hf : f ∈ m.fields) (h : registry.Rejects f) : RejectsMessage registry m
  | nested {m inner} (hm : inner ∈ m.ordinaryNested) (h : RejectsMessage registry inner) :
      RejectsMessage registry m

theorem entryOf?_key {registry : Registry} (flat : registry.Flat) {f : FieldDescriptor}
    {entry : MapEntry} (h : registry.entryOf? f = some entry) :
    registry.entryOf? entry.key = none ∧ registry.entryOf? entry.value = none := by
  obtain ⟨typeName, -, hEntry⟩ := Option.bind_eq_some_iff.1 h
  exact flat typeName entry hEntry

/-- Where a map entry is known, there is room for a step through one. -/
theorem mapEntries_size_pos {registry : Registry} {f : FieldDescriptor} {entry : MapEntry}
    (h : registry.entryOf? f = some entry) : 0 < registry.mapEntries.size := by
  obtain ⟨typeName, -, hEntry⟩ := Option.bind_eq_some_iff.1 h
  rw [Nat.pos_iff_ne_zero]
  intro hZero
  have hEmpty : registry.mapEntries = ∅ := by
    rw [← Std.ExtTreeMap.isEmpty_iff, Std.ExtTreeMap.isEmpty_eq_size_beq_zero, hZero]
    rfl
  rw [mapOf?, hEmpty] at hEntry
  simp at hEntry

theorem rejectsMessage_iff {registry : Registry} {m : MessageDescriptor} :
    registry.RejectsMessage m ↔ m.name? = none ∨ (∃ f ∈ m.fields, registry.Rejects f) ∨
      ∃ inner ∈ m.ordinaryNested, registry.RejectsMessage inner := by
  constructor
  · intro h
    cases h with
    | unnamed h => exact Or.inl h
    | field hf h => exact Or.inr (Or.inl ⟨_, hf, h⟩)
    | nested hm h => exact Or.inr (Or.inr ⟨_, hm, h⟩)
  · rintro (h | ⟨f, hf, h⟩ | ⟨inner, hm, h⟩)
    · exact .unnamed h
    · exact .field hf h
    · exact .nested hm h

end Registry

/-! ## Types and routines -/

namespace FieldDescriptor

theorem routineWith_succeeds (f : FieldDescriptor) (start : String) :
    Succeeds (f.routineWith start) ↔ f.type ≠ .group := by
  cases h : f.type <;> simp [routineWith, h, FieldType.routine?]

theorem writeRoutine_succeeds (f : FieldDescriptor) :
    Succeeds f.writeRoutine ↔ f.type ≠ .group := routineWith_succeeds f _

theorem readRoutine_succeeds (f : FieldDescriptor) :
    Succeeds f.readRoutine ↔ f.type ≠ .group := routineWith_succeeds f _

end FieldDescriptor

namespace Scope

variable {scope : Scope}

theorem plainType_succeeds {f : FieldDescriptor} (h : f.type ≠ .group) :
    Succeeds (scope.plainType f) := by
  unfold plainType
  split
  · simp
  · split <;> simp_all

/-- A field that is no map has a type when it is no group. -/
theorem valueTypeWithin_succeeds_of_plain {steps : Nat} {f : FieldDescriptor}
    (hMap : scope.mapOf? f = none) (h : f.type ≠ .group) :
    Succeeds (scope.valueTypeWithin (steps + 1) f) := by
  rw [valueTypeWithin, hMap]
  exact plainType_succeeds h

/-- Every field that is not rejected has a type. -/
theorem valueType_succeeds (flat : scope.registry.Flat) {f : FieldDescriptor}
    (h : ¬ scope.registry.Rejects f) : Succeeds (scope.valueType f) := by
  simp only [Registry.Rejects, not_or, not_exists, not_and] at h
  obtain ⟨hGroup, hSides⟩ := h
  cases hEntry : scope.registry.entryOf? f with
  | none => exact valueTypeWithin_succeeds_of_plain hEntry hGroup
  | some entry =>
      obtain ⟨hKey, hValue⟩ := Registry.entryOf?_key flat hEntry
      obtain ⟨hKeyGroup, hValueGroup⟩ := hSides entry hEntry
      obtain ⟨n, hn⟩ : ∃ n, scope.mapSteps = n + 1 + 1 :=
        ⟨scope.registry.mapEntries.size - 1, by
          have := Registry.mapEntries_size_pos hEntry
          unfold mapSteps
          omega⟩
      obtain ⟨key, hk⟩ : Succeeds (scope.valueTypeWithin (n + 1) entry.key) :=
        valueTypeWithin_succeeds_of_plain hKey hKeyGroup
      obtain ⟨value, hv⟩ : Succeeds (scope.valueTypeWithin (n + 1) entry.value) :=
        valueTypeWithin_succeeds_of_plain hValue hValueGroup
      refine ⟨.reference "Map" [key, value], ?_⟩
      rw [valueType, hn, valueTypeWithin, show scope.mapOf? f = some entry from hEntry]
      exact bind_eq_ok.2 ⟨key, hk, bind_eq_ok.2 ⟨value, hv, rfl⟩⟩

theorem slot_eq_ok {f : FieldDescriptor} {slot : Slot} :
    scope.slot f = .ok slot ↔
      f.type ≠ .group ∧ slot = ⟨f, scope.storage f, scope.file.mayOmit f, f.oneof?⟩ := by
  unfold Scope.slot
  split <;> simp_all [eq_comm]

/-- The slot of a field remembers the field and its storage. -/
theorem descriptor_of_slot {f : FieldDescriptor} {slot : Slot} (h : scope.slot f = .ok slot) :
    slot.descriptor = f ∧ slot.storage = scope.storage f := by
  obtain ⟨-, rfl⟩ := slot_eq_ok.1 h
  exact ⟨rfl, rfl⟩

theorem slotType_succeeds (flat : scope.registry.Flat) {f : FieldDescriptor} {slot : Slot}
    (hSlot : scope.slot f = .ok slot) (h : ¬ scope.registry.Rejects f) :
    Succeeds (scope.slotType slot) := by
  obtain ⟨hDesc, -⟩ := descriptor_of_slot hSlot
  rw [slotType, hDesc, propertyType, bind_succeeds_of_total fun _ => succeeds_pure _]
  exact valueType_succeeds flat h

/-- One side of a map is carried exactly when it is no group. -/
theorem mapSide_succeeds (flat : scope.registry.Flat) {f : FieldDescriptor}
    (hMap : scope.registry.entryOf? f = none) :
    Succeeds (scope.mapSide f) ↔ f.type ≠ .group := by
  rw [mapSide, bind_succeeds]
  simp only [bind_succeeds_of_total fun routine => succeeds_pure (MapSide.mk f _ routine),
    FieldDescriptor.writeRoutine_succeeds]
  constructor
  · rintro ⟨_, _, h⟩
    exact h
  · intro h
    obtain ⟨type, hType⟩ := valueType_succeeds flat (f := f) (by
      rintro (hGroup | ⟨entry, hEntry, -⟩)
      · exact h hGroup
      · rw [hMap] at hEntry
        cases hEntry)
    exact ⟨type, hType, h⟩

/-- The routines of a field are known exactly when code can carry it. -/
theorem content_succeeds (flat : scope.registry.Flat) {f : FieldDescriptor} {slot : Slot}
    (hSlot : scope.slot f = .ok slot) :
    Succeeds (scope.content slot) ↔ ¬ scope.registry.Rejects f := by
  obtain ⟨hGroup, -⟩ := slot_eq_ok.1 hSlot
  obtain ⟨hDesc, hStorage⟩ := descriptor_of_slot hSlot
  rw [content, hStorage, hDesc, storage, Scope.mapOf?, ← Registry.entryOf?, Registry.Rejects]
  cases hEntry : scope.registry.entryOf? f with
  | none =>
      have hWrite := (FieldDescriptor.writeRoutine_succeeds f).2 hGroup
      have hRead := (FieldDescriptor.readRoutine_succeeds f).2 hGroup
      by_cases hMessage : f.isMessage
      · simpa [hMessage, hGroup] using hWrite
      · obtain ⟨write, hw⟩ := hWrite
        obtain ⟨read, hr⟩ := hRead
        simp only [hMessage, hGroup, Bool.false_eq_true, if_false, hw, hr]
        simp [bind, Except.bind]
  | some entry =>
      obtain ⟨hKey, hValue⟩ := Registry.entryOf?_key flat hEntry
      simp only [Option.some.injEq, exists_eq_left', hGroup, false_or, not_or,
        ← mapSide_succeeds flat hKey, ← mapSide_succeeds flat hValue, bind_succeeds]
      constructor
      · rintro ⟨key, hk, value, hv, -⟩
        exact ⟨⟨key, hk⟩, ⟨value, hv⟩⟩
      · rintro ⟨⟨key, hk⟩, ⟨value, hv⟩⟩
        exact ⟨key, hk, value, hv, succeeds_pure _⟩

theorem property_succeeds (flat : scope.registry.Flat) {f : FieldDescriptor} {slot : Slot}
    (hSlot : scope.slot f = .ok slot) :
    Succeeds (scope.property slot) ↔ ¬ scope.registry.Rejects f := by
  rw [property, bind_succeeds]
  simp only [bind_succeeds_of_total fun content => succeeds_pure (Property.mk slot _ content),
    content_succeeds flat hSlot]
  constructor
  · rintro ⟨_, _, h⟩
    exact h
  · intro h
    obtain ⟨type, hType⟩ := slotType_succeeds flat hSlot h
    exact ⟨type, hType, h⟩

theorem mem_of_mem_typingOrder {count : Nat} {slots : List Slot} {slot : Slot}
    (h : slot ∈ typingOrder count slots) : slot ∈ slots := by
  simp only [typingOrder, slotsOf, List.mem_append, List.mem_flatMap, List.mem_filter] at h
  rcases h with h | ⟨_, _, _, _, h, _⟩
  · exact h.1
  · exact h.1

/-! ## Plans and declarations -/

/-- The properties of a message are known exactly when code can carry each of its fields. -/
theorem properties_succeeds (flat : scope.registry.Flat) (m : MessageDescriptor) :
    Succeeds (scope.properties m) ↔ ∀ f ∈ m.fields, ¬ scope.registry.Rejects f := by
  rw [properties, bind_succeeds]
  constructor
  · rintro ⟨slots, hSlots, h⟩ f hf
    obtain ⟨-, -, h⟩ := bind_succeeds.1 h
    obtain ⟨slot, hMem, hSlot⟩ := exists_output hSlots hf
    exact (property_succeeds flat hSlot).1 (mapM_succeeds.1 h slot hMem)
  · intro h
    obtain ⟨slots, hSlots⟩ : Succeeds (scope.slots m) := by
      refine mapM_succeeds.2 fun f hf => ?_
      have hGroup : f.type ≠ .group := fun hGroup => h f hf (Or.inl hGroup)
      exact ⟨_, slot_eq_ok.2 ⟨hGroup, rfl⟩⟩
    -- each slot belongs to a field that is not rejected
    have hField : ∀ slot ∈ slots, ∃ f, scope.slot f = .ok slot ∧ ¬ scope.registry.Rejects f := by
      intro slot hMem
      obtain ⟨f, hf, hSlot⟩ := exists_input hSlots hMem
      exact ⟨f, hSlot, h f hf⟩
    obtain ⟨types, hTypes⟩ : Succeeds
        ((typingOrder m.oneofs.length slots ++ slots).mapM scope.slotType) := by
      refine mapM_succeeds.2 fun slot hMem => ?_
      obtain ⟨f, hSlot, hf⟩ := hField slot
        ((List.mem_append.1 hMem).elim mem_of_mem_typingOrder id)
      exact slotType_succeeds flat hSlot hf
    refine ⟨slots, hSlots, bind_succeeds.2 ⟨types, hTypes, mapM_succeeds.2 fun slot hMem => ?_⟩⟩
    obtain ⟨f, hSlot, hf⟩ := hField slot hMem
    exact (property_succeeds flat hSlot).2 hf

theorem plan_succeeds (flat : scope.registry.Flat) (m : MessageDescriptor) :
    Succeeds (scope.plan m) ↔
      m.name? ≠ none ∧ ∀ f ∈ m.fields, ¬ scope.registry.Rejects f := by
  rw [plan, ← properties_succeeds flat]
  cases m.name? with
  | none => simp
  | some name => simp

end Scope

mutual

/-- **A message is generated exactly when nothing in it is rejected.** -/
theorem Scope.messageDecls_succeeds {scope : Scope} (flat : scope.registry.Flat) :
    ∀ m : MessageDescriptor,
      Succeeds (scope.messageDecls m) ↔ ¬ scope.registry.RejectsMessage m
  | ⟨name?, fields, nested, enums, oneofs, isMapEntry⟩ => by
      rw [Scope.messageDecls, Registry.rejectsMessage_iff, bind_succeeds]
      have hNested := Scope.nestedDecls_succeeds flat nested
      simp only [bind_succeeds_of_total fun _ => succeeds_pure _, hNested, exists_and_right]
      rw [show (∃ plan, scope.plan ⟨name?, fields, nested, enums, oneofs, isMapEntry⟩ = .ok plan) ↔
        _ from Scope.plan_succeeds flat _]
      simp only [MessageDescriptor.ordinaryNested, List.mem_filter, not_or, not_exists, not_and,
        Bool.not_eq_true', and_assoc]

/-- The messages declared in a message are generated exactly when none of them is rejected. -/
theorem Scope.nestedDecls_succeeds {scope : Scope} (flat : scope.registry.Flat) :
    ∀ ms : List MessageDescriptor, Succeeds (scope.nestedDecls ms) ↔
      ∀ m ∈ ms, m.isMapEntry = false → ¬ scope.registry.RejectsMessage m
  | [] => by simp [Scope.nestedDecls]
  | m :: rest => by
      have hFirst := Scope.messageDecls_succeeds flat m
      have hRest := Scope.nestedDecls_succeeds flat rest
      rw [Scope.nestedDecls, List.forall_mem_cons, ← hRest, ← hFirst]
      by_cases hEntry : m.isMapEntry
      · simp [hEntry]
      · simp only [hEntry, Bool.false_eq_true, if_false, forall_const, bind_succeeds]
        constructor
        · rintro ⟨first, h, others, h', -⟩
          exact ⟨⟨first, h⟩, ⟨others, h'⟩⟩
        · rintro ⟨⟨first, h⟩, ⟨others, h'⟩⟩
          exact ⟨first, h, others, h', succeeds_pure _⟩

end

end Protoscribe

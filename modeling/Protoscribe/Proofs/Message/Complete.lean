import Protoscribe.Proofs.Message.Agreement

set_option autoImplicit false

/-! # Instances that become plain objects

An instance survives as a plain object when it is complete: its required fields are populated, what
its fields hold is of their types, and the messages inside are complete (`Complete`). Main
statements: `shown_present`, what the plain object of a complete instance shows is there;
`value_of_hidden`, what it does not show is what a new instance holds; and `shown_member`, of a
oneof it shows the member that is populated. With `toObject_eventually` the plain object of an
instance is known as soon as the values of the properties that are shown can be converted.
-/

namespace Protoscribe

open TypeScript Evaluation Filter

/-! ## Complete instances -/

/-- What a property holds is of its type: keys that the type of the keys allows, and values without
parts where it holds no messages. -/
def Property.Typed (p : Property) (stored : Option Value) : Prop :=
  match p.content with
  | .map key value => ∀ entries, stored = some (.map entries) → ∀ entry ∈ entries,
      key.descriptor.HoldsKey entry.1 ∧ (value.descriptor.isMessage = false → entry.2.isAtom)
  | .message .. => True
  | .scalar true .. => ∀ items, stored = some (.list items) → ∀ item ∈ items, item.isAtom
  | .scalar false .. => ∀ v, stored = some v → v.isAtom

/-- The instances of a type whose required fields are populated, in the messages inside as well. -/
inductive Complete (P : Program) : String → Value → Prop
  | intro {typeName : String} {scope : Scope} {m : MessageDescriptor} {plan : Plan} {s : Fields}
      (known : ClassOf P typeName scope m plan)
      (shape : ∀ p ∈ plan.properties, p.Shape (s p.number))
      (typed : ∀ p ∈ plan.properties, p.Typed (s p.number)) (exclusive : plan.Exclusive s)
      (required : ∀ p ∈ plan.properties, p.slot.descriptor.label = .required →
        (s p.number).isSome)
      (nested : ∀ p ∈ plan.properties, ∀ other v, p.Holds (s p.number) other v →
        Complete P other v) : Complete P typeName (.instance typeName s)

/-- The members of the oneofs of a message are optional and have no declared default. -/
def MessageDescriptor.PlainMembers (m : MessageDescriptor) : Prop :=
  ∀ f ∈ m.fields, f.oneofIndex? ≠ none → f.label = .optional ∧ f.defaultValue = ""

section Complete

variable {scope : Scope} {m : MessageDescriptor} {plan : Plan} {s : Fields} {p : Property}

/-! ## Properties -/

section Plan

variable (hPlan : scope.plan m = .ok plan) (hp : p ∈ plan.properties)

include hPlan hp

theorem optional_of_label (h : p.slot.descriptor.label = .optional) : p.optional := by
  rw [optional_of_plan hPlan hp, FileDescriptor.mayOmit_of_optional _ h]

/-- Only required fields, lists and maps are always present. -/
theorem required_kind (h : p.optional = false) :
    p.slot.descriptor.label = .required ∨ p.slot.isList ∨ p.isMap := by
  have hContent := content_of_plan hPlan hp
  cases hLabel : p.slot.descriptor.label with
  | optional => rw [optional_of_label hPlan hp hLabel] at h; cases h
  | required => exact Or.inl rfl
  | repeated =>
      have hRepeated : p.slot.descriptor.isRepeated := by
        rw [FieldDescriptor.isRepeated, hLabel]
        rfl
      right
      rw [isList_eq hPlan hp, Property.isMap]
      rw [Scope.storage] at hContent
      cases hMap : scope.mapOf? p.slot.descriptor with
      | some entry =>
          obtain ⟨key, value, hContent, -⟩ := hMap ▸ hContent
          simp [hContent]
      | none =>
          simp only [hMap] at hContent
          by_cases hMessage : p.slot.descriptor.isMessage
          · obtain ⟨write, hContent, -⟩ := if_pos hMessage ▸ hContent
            simp [hContent, hRepeated]
          · obtain ⟨write, read, hContent, -⟩ := if_neg hMessage ▸ hContent
            simp [hContent, hRepeated]

theorem oneof_eq : p.slot.oneof = p.slot.descriptor.oneof? := by
  rw [slot_of_plan hPlan hp]

/-- Members of oneofs are optional, and their getters fall back on nothing. -/
theorem plain_member (plain : m.PlainMembers) (hOneof : p.slot.oneof ≠ none) :
    p.optional ∧ p.default scope = .undefined := by
  obtain ⟨hField, -, -⟩ := property_of_plan hPlan hp
  have hIndex : p.slot.descriptor.oneofIndex? ≠ none := by
    intro hNone
    rw [oneof_eq hPlan hp, FieldDescriptor.oneof?, hNone] at hOneof
    exact hOneof rfl
  obtain ⟨hLabel, hDefault⟩ := plain _ hField hIndex
  refine ⟨optional_of_label hPlan hp hLabel, ?_⟩
  rw [Property.default, Access.declaredDefault?, if_pos hDefault]
  split <;> rfl

/-- A property that is always present belongs to no oneof. -/
theorem oneof_of_required (plain : m.PlainMembers) (hOptional : p.optional = false) :
    p.slot.oneof = none := by
  by_contra hOneof
  have hMember := (plain_member hPlan hp plain hOneof).1
  rw [hOptional] at hMember
  cases hMember

end Plan

/-! ## What is shown and what is not -/

theorem map_of_shape (hShape : p.Shape (s p.number)) (hMap : p.isMap) :
    ∃ entries, s p.number = some (.map entries) := by
  obtain ⟨key, value, hContent⟩ := Property.isMap_iff.1 hMap
  simp only [Property.Shape, hContent] at hShape
  obtain ⟨entries, hStored, -⟩ := hShape
  exact ⟨entries, hStored⟩

/-- What is optional and no map is shown exactly when its getter gives something. -/
theorem shown_optional (hOptional : p.optional) (hMap : p.isMap = false) :
    p.shown scope s = !(p.value scope s).isMissing := by
  rw [Property.shown, hOptional, hMap]
  rfl

section Shown

variable (hPlan : scope.plan m = .ok plan) (hp : p ∈ plan.properties)
  (hShape : p.Shape (s p.number))

include hShape

/-- What is not shown holds nothing, unless it is a map. -/
theorem stored_of_hidden (hHidden : p.shown scope s = false) (hMap : p.isMap = false) :
    s p.number = none := by
  have hOptional : p.optional := by
    by_contra hRequired
    rw [shown_of_required (Bool.eq_false_iff.2 hRequired)] at hHidden
    cases hHidden
  rw [shown_optional hOptional hMap] at hHidden
  cases hStored : s p.number with
  | none => rfl
  | some v =>
      rw [Property.value_of_some hStored, shape_present (hStored ▸ hShape)] at hHidden
      cases hHidden

include hPlan hp

/-- **What is not shown is what a new instance has**: a map without entries, and anything else not
populated. -/
theorem value_of_hidden (hHidden : p.shown scope s = false) :
    p.value scope s = p.initial.getD (p.default scope) := by
  by_cases hMap : p.isMap
  · obtain ⟨entries, hStored⟩ := map_of_shape hShape hMap
    have hValue : p.value scope s = .map entries := Property.value_of_some hStored
    rw [Property.shown, hMap, hValue] at hHidden
    -- an optional map is hidden only when it has no entries
    have hEmpty : entries = [] := by
      simpa using (Bool.or_eq_false_iff.1 hHidden).2
    rw [hValue, hEmpty, Property.initial, isList_of_isMap hPlan hp hMap, hMap]
    rfl
  · have hNone := stored_of_hidden hShape hHidden (Bool.eq_false_iff.2 hMap)
    -- a list is always stored, so this is a single value
    have hList : ¬ p.slot.isList := by
      intro hList
      have hSome := shape_some hPlan hp hShape (Or.inl hList)
      rw [hNone] at hSome
      cases hSome
    rw [Property.value_of_none hNone, Property.initial, if_neg hList, if_neg hMap]
    rfl

/-- **Of a oneof the member is shown that is populated.** -/
theorem shown_member (legal : m.Legal scope) (plain : m.PlainMembers)
    (hOneof : p.slot.oneof ≠ none) : p.shown scope s = (s p.number).isSome := by
  obtain ⟨hOptional, hDefault⟩ := plain_member hPlan hp plain hOneof
  have hMap := (single_of_oneof hPlan hp legal hOneof).2
  rw [shown_optional hOptional hMap]
  cases hStored : s p.number with
  | none =>
      rw [Property.value_of_none hStored, hDefault]
      rfl
  | some v =>
      rw [Property.value_of_some hStored, shape_present (hStored ▸ hShape)]
      rfl

/-- **What is shown is there**, when the required fields are populated. -/
theorem shown_present
    (hRequired : p.slot.descriptor.label = .required → (s p.number).isSome)
    (hShown : p.shown scope s) : (p.value scope s).isMissing = false := by
  have hStored (hSome : (s p.number).isSome) : (p.value scope s).isMissing = false := by
    obtain ⟨v, hv⟩ := Option.isSome_iff_exists.1 hSome
    rw [Property.value_of_some hv]
    exact shape_present (hv ▸ hShape)
  cases hOptional : p.optional with
  | false =>
      rcases required_kind hPlan hp hOptional with hLabel | hKind
      · exact hStored (hRequired hLabel)
      · exact hStored (shape_some hPlan hp hShape hKind)
  | true =>
      by_cases hMap : p.isMap
      · exact hStored (shape_some hPlan hp hShape (Or.inr hMap))
      · rw [shown_optional hOptional (Bool.eq_false_iff.2 hMap)] at hShown
        simpa using hShown

end Shown

end Complete

/-- The properties of an instance that are shown make up its plain object. -/
theorem toObject_eventually {P : Program} {typeName : String} {scope : Scope}
    {m : MessageDescriptor} {plan : Plan} {s : Fields} {plain : Property → Value}
    (hClass : ClassOf P typeName scope m plan)
    (hShape : ∀ p ∈ plan.properties, p.Shape (s p.number))
    (hPlain : ∀ p ∈ plan.plainProperties scope s,
      ∀ᶠ n in atTop, Converted (Plains (P.invoke n)) p (p.value scope s) (plain p)) :
    ∀ᶠ n in atTop, Plains (P.invoke n) typeName (.instance typeName s)
      (.record ((plan.plainProperties scope s).map fun p => (p.name, plain p))) := by
  have hMaps : ∀ p ∈ plan.properties, p.isMap → ∃ entries, p.value scope s = .map entries := by
    intro p hp hMap
    obtain ⟨entries, hStored⟩ := map_of_shape (hShape p hp) hMap
    exact ⟨entries, Property.value_of_some hStored⟩
  -- the getters are one call deeper than the method
  obtain ⟨bound, hBound⟩ := eventually_atTop.1 (eventually_forall_mem hPlain)
  refine eventually_atTop.2 ⟨bound + 2, fun n hn => ?_⟩
  obtain ⟨k, rfl⟩ : ∃ k, n = k + 2 := ⟨n - 2, by omega⟩
  have hPlainly : Plainly scope plan (Plains (P.invoke (k + 1))) s plain :=
    ⟨hMaps, fun p hp hShown => hBound (k + 1) (by omega) p (mem_plainProperties.2 ⟨hp, hShown⟩)⟩
  exact toObject_run hClass (accesses_invoke hClass k) id hPlainly

/-- A declared default is a value without parts. -/
theorem default_atom (scope : Scope) (p : Property) : (p.default scope).isAtom := by
  have hConstant : ∀ e, (constantValue e).isAtom := by
    intro e
    cases e with
    | number text =>
        rw [constantValue, Value.ofNumber]
        split <;> rfl
    | _ => rfl
  rw [Property.default]
  split
  · split
    · exact hConstant _
    · rfl
  · rfl

end Protoscribe

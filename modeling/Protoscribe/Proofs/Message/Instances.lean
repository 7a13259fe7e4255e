import Mathlib.Logic.Relation
import Protoscribe.Proofs.Message.Restoring

set_option autoImplicit false

/-! # Instances and what is lost of them

The instances of a type hold in every property what it may hold (`Fits`), and the messages inside
are of the types that the type contains (`Program.Contains`, `hasField_of_holds`).

A populated property is lost on the wire in two cases only (`Plan.Lost`). An empty single text is
not written, and a member of a oneof is cleared when a later member of the oneof has a declared
default, which is written although that member is not populated. Main statements:
`written_of_populated`, every other populated property is written and not replaced, and
`dropped_of_lost`, a lost one is not.
-/

namespace Protoscribe

open TypeScript Evaluation

/-! ## Instances -/

/-- What a property may hold: a map and a list are always there, the keys of a map are distinct, and
a single text is a text. -/
def Property.Shape (p : Property) (stored : Option Value) : Prop :=
  match p.content with
  | .map .. => ∃ entries, stored = some (.map entries) ∧ (entries.map Prod.fst).Nodup ∧
      ∀ entry ∈ entries, entry.1 ≠ .null ∧ entry.2.isMissing = false
  | .message _ true _ => ∃ items, stored = some (.list items)
  | .message _ false _ => ∀ v, stored = some v → v.isMissing = false
  | .scalar true .. => ∃ items, stored = some (.list items)
  | .scalar false .. => ∀ v, stored = some v →
      v.isMissing = false ∧ (p.isText → ∃ text, v = .string text)

/-- A message of a type occurs in what a property holds. -/
def Property.Holds (p : Property) (stored : Option Value) (other : String) (v : Value) : Prop :=
  match p.content with
  | .map _ value => value.descriptor.isMessage ∧ other = value.descriptor.typeName ∧
      ∃ entries key, stored = some (.map entries) ∧ (key, v) ∈ entries
  | .message typeName true _ => other = typeName ∧ ∃ items, stored = some (.list items) ∧ v ∈ items
  | .message typeName false _ => other = typeName ∧ stored = some v
  | .scalar .. => False

section Holds

variable {p : Property} {stored : Option Value} {v : Value}

theorem holds_entry {key value : MapSide} {k : Scalar} {entries : List (Scalar × Value)}
    (content : p.content = .map key value) (hMessage : value.descriptor.isMessage)
    (hStored : stored = some (.map entries)) (hMem : (k, v) ∈ entries) :
    p.Holds stored value.descriptor.typeName v := by
  rw [Property.Holds, content]
  exact ⟨hMessage, rfl, entries, k, hStored, hMem⟩

theorem holds_item {other write : String} {items : List Value}
    (content : p.content = .message other true write) (hStored : stored = some (.list items))
    (hMem : v ∈ items) : p.Holds stored other v := by
  rw [Property.Holds, content]
  exact ⟨rfl, items, hStored, hMem⟩

theorem holds_message {other write : String} (content : p.content = .message other false write)
    (hStored : stored = some v) : p.Holds stored other v := by
  rw [Property.Holds, content]
  exact ⟨rfl, hStored⟩

end Holds

/-- At most one member of a oneof is populated. -/
def Plan.Exclusive (plan : Plan) (s : Fields) : Prop :=
  ∀ p ∈ plan.properties, ∀ q ∈ plan.properties, p.Beside q →
    (s p.number).isSome → (s q.number).isSome → p = q

/-- The instances of a type: every property holds what it may, at most one member of a oneof is
populated, and the messages inside are instances of their types. -/
inductive Fits (P : Program) : String → Value → Prop
  | intro {typeName : String} {scope : Scope} {m : MessageDescriptor} {plan : Plan} {s : Fields}
      (known : ClassOf P typeName scope m plan)
      (shape : ∀ p ∈ plan.properties, p.Shape (s p.number)) (exclusive : plan.Exclusive s)
      (nested : ∀ p ∈ plan.properties, ∀ other v, p.Holds (s p.number) other v →
        Fits P other v) : Fits P typeName (.instance typeName s)

/-- The fields of a type hold messages of another type. -/
def Evaluation.Program.HasField (P : Program) (typeName other : String) : Prop :=
  ∃ scope m, P.source? typeName = some (scope, m) ∧
    ∃ f ∈ m.fields, scope.messageType? f = some other

/-- Messages of a type may occur in those of another, at any depth. -/
def Evaluation.Program.Contains (P : Program) : String → String → Prop :=
  Relation.ReflTransGen P.HasField

/-- The class of a type, and those of all messages inside, meet a condition. -/
def Evaluation.Program.Throughout (P : Program) (typeName : String)
    (φ : String → Scope → MessageDescriptor → Prop) : Prop :=
  ∀ other, P.Contains typeName other → ∀ scope m, P.source? other = some (scope, m) →
    φ other scope m

/-- A populated property is lost when it is an empty single text, or when a later member of its
oneof has a declared default. -/
def Plan.Lost (scope : Scope) (plan : Plan) (s : Fields) (p : Property) : Prop :=
  (p.isText ∧ s p.number = some (.string "")) ∨
    ((s p.number).isSome ∧ ∃ before after, plan.properties = before ++ p :: after ∧
      ∃ q ∈ after, p.Beside q ∧ q.default scope ≠ .undefined)

section Instances

variable {scope : Scope} {m : MessageDescriptor} {plan : Plan} {s : Fields} {p : Property}

/-! ## Messages inside -/

section Throughout

variable {P : Program} {typeName other : String} {φ : String → Scope → MessageDescriptor → Prop}

theorem Evaluation.Program.Throughout.here (h : P.Throughout typeName φ)
    (hSource : P.source? typeName = some (scope, m)) : φ typeName scope m :=
  h typeName .refl scope m hSource

theorem Evaluation.Program.Throughout.inside (h : P.Throughout typeName φ)
    (hField : P.HasField typeName other) : P.Throughout other φ :=
  fun inner hInner => h inner (.head hField hInner)

/-- A message in a property is of the type of a field. -/
theorem hasField_of_holds (hClass : ClassOf P typeName scope m plan) (hp : p ∈ plan.properties)
    {stored : Option Value} {v : Value} (h : p.Holds stored other v) :
    P.HasField typeName other := by
  have hField := (property_of_plan hClass.planned hp).1
  refine ⟨scope, m, hClass.source, _, hField, ?_⟩
  rw [Property.Holds] at h
  split at h
  · rename_i hContent
    obtain ⟨hMessage, rfl, -⟩ := h
    exact messageType?_of_map hClass.planned hClass.legal hp hContent hMessage
  · rename_i hContent
    obtain ⟨rfl, -⟩ := h
    exact messageType?_of_message hClass.planned hClass.legal hp hContent
  · rename_i hContent
    obtain ⟨rfl, -⟩ := h
    exact messageType?_of_message hClass.planned hClass.legal hp hContent
  · exact h.elim

end Throughout

/-! ## Declared defaults -/

theorem default_present (scope : Scope) (p : Property) :
    p.default scope = .undefined ∨ (p.default scope).isMissing = false := by
  have hConstant : ∀ e, (constantValue e).isMissing = false := by
    intro e
    cases e with
    | number text =>
        rw [constantValue, Value.ofNumber]
        split <;> rfl
    | _ => rfl
  rw [Property.default]
  split
  · split
    · exact Or.inr (hConstant _)
    · exact Or.inl rfl
  · exact Or.inl rfl

theorem default_text (scope : Scope) (h : p.isText) :
    p.default scope = .undefined ∨ ∃ text, text ≠ "" ∧ p.default scope = .string text := by
  have hType : p.slot.descriptor.type = .string := by
    simp only [Property.isText, Bool.and_eq_true, decide_eq_true_eq] at h
    exact h.1.1
  rw [Property.default]
  split
  · by_cases hNone : p.slot.descriptor.defaultValue = ""
    · simp [Access.declaredDefault?, hNone]
    · refine Or.inr ⟨_, hNone, ?_⟩
      simp [Access.declaredDefault?, hNone, hType, constantValue]
  · exact Or.inl rfl

/-! ## Written properties -/

theorem value_of_written (hMap : p.isMap = false) (hWritten : p.written scope s) :
    p.value scope s ≠ .undefined := by
  intro hValue
  rw [written_eq hMap, hValue] at hWritten
  by_cases hText : p.isText <;> simp [hText, Value.isUndefined] at hWritten

/-- A property that holds nothing is written when it has a declared default. -/
theorem written_default (hMap : p.isMap = false) (hNone : s p.number = none) :
    p.written scope s ↔ p.default scope ≠ .undefined := by
  rw [written_eq hMap, Property.value_of_none hNone]
  by_cases hText : p.isText
  · rw [if_pos hText]
    rcases default_text scope hText with hDefault | ⟨text, hNotEmpty, hDefault⟩
    · simp [hDefault]
    · simp [hDefault, Value.string, hNotEmpty]
  · rw [if_neg hText]
    cases p.default scope <;> simp [Value.isUndefined]

section Populated

variable (hPlan : scope.plan m = .ok plan) (legal : m.Legal scope) (hp : p ∈ plan.properties)

/-- What a property holds is not missing. -/
theorem shape_present {v : Value} (hShape : p.Shape (some v)) : v.isMissing = false := by
  rw [Property.Shape] at hShape
  split at hShape
  · obtain ⟨entries, hStored, -⟩ := hShape
    rw [Option.some.inj hStored]
    rfl
  · obtain ⟨items, hStored⟩ := hShape
    rw [Option.some.inj hStored]
    rfl
  · exact hShape v rfl
  · obtain ⟨items, hStored⟩ := hShape
    rw [Option.some.inj hStored]
    rfl
  · exact (hShape v rfl).1

include hPlan hp

/-- Lists and maps are there. -/
theorem shape_some (hShape : p.Shape (s p.number)) (hKind : p.slot.isList ∨ p.isMap) :
    (s p.number).isSome := by
  rw [isList_eq hPlan hp, Property.isMap] at hKind
  rw [Property.Shape] at hShape
  split at hShape
  · obtain ⟨entries, hStored, -⟩ := hShape
    rw [hStored]
    rfl
  · obtain ⟨items, hStored⟩ := hShape
    rw [hStored]
    rfl
  · rename_i hContent
    simp [hContent] at hKind
  · obtain ⟨items, hStored⟩ := hShape
    rw [hStored]
    rfl
  · rename_i hContent
    simp [hContent] at hKind

/-- Lists and maps are always written. -/
theorem written_of_kind (hShape : p.Shape (s p.number)) (hKind : p.slot.isList ∨ p.isMap) :
    p.written scope s := by
  obtain ⟨v, hStored⟩ := Option.isSome_iff_exists.1 (shape_some hPlan hp hShape hKind)
  by_cases hMap : p.isMap
  · rw [Property.written, hMap, Bool.true_or]
  · have hText : p.isText = false := by
      rw [Property.isText, hKind.resolve_right hMap, Bool.not_true, Bool.and_false, Bool.false_and]
    rw [written_eq (Bool.eq_false_iff.2 hMap), hText, Property.value_of_some hStored,
      Value.isUndefined_of_present (shape_present (hStored ▸ hShape))]
    rfl

include legal

/-- A single text holds a text. -/
theorem shape_text {v : Value} (hText : p.isText) (hShape : p.Shape (some v)) :
    ∃ text, v = .string text := by
  have hKind : p.slot.descriptor.type = .string ∧ p.slot.isList = false ∧ p.isMap = false := by
    simpa [Property.isText, and_assoc] using hText
  obtain ⟨hType, hList, hMap⟩ := hKind
  rw [isList_eq hPlan hp] at hList
  rw [Property.isMap] at hMap
  rw [Property.Shape] at hShape
  cases hContent : p.content with
  | map key value => simp [hContent] at hMap
  | message other repeated write =>
      obtain ⟨-, -, hMessage, -⟩ := message_content hPlan hp legal hContent
      simp [FieldDescriptor.isMessage, hType] at hMessage
  | scalar repeated packed write read =>
      simp only [hContent] at hList hShape
      subst hList
      exact (hShape v rfl).2 hText

/-- A later member of the oneof of a populated property is written when it has a declared
default. -/
theorem written_beside (hExclusive : plan.Exclusive s) (hSome : (s p.number).isSome)
    {before after : List Property} (hSplit : plan.properties = before ++ p :: after) {q : Property}
    (hq : q ∈ after) (hBeside : p.Beside q) :
    q.written scope s ↔ q.default scope ≠ .undefined := by
  obtain ⟨hNew, hAfter⟩ := after_property hPlan legal hSplit
  have hqMem := hAfter q hq
  have hNone : s q.number = none := by
    by_contra hOther
    have hSame := hExclusive p hp q hqMem hBeside hSome (Option.isSome_iff_ne_none.2 hOther)
    rw [hSame] at hNew
    exact hNew hq
  have hOneof : q.slot.oneof ≠ none := fun h => hBeside.1 (hBeside.2.symm.trans h)
  exact written_default (single_of_oneof hPlan hqMem legal hOneof).2 hNone

/-- **A populated property that is not lost is written, and nothing replaces it.** -/
theorem written_of_populated (hShape : p.Shape (s p.number)) (hExclusive : plan.Exclusive s)
    (hSome : (s p.number).isSome) (hKept : ¬ plan.Lost scope s p) :
    p.written scope s ∧ ¬ plan.Replaced scope s p := by
  obtain ⟨v, hStored⟩ := Option.isSome_iff_exists.1 hSome
  have hValue : p.value scope s = v := Property.value_of_some hStored
  constructor
  · by_cases hMap : p.isMap
    · rw [Property.written, hMap, Bool.true_or]
    rw [written_eq (Bool.eq_false_iff.2 hMap), hValue]
    rw [hStored] at hShape
    by_cases hText : p.isText
    · obtain ⟨text, rfl⟩ := shape_text hPlan legal hp hText hShape
      have hNotEmpty : text ≠ "" := fun h => hKept (Or.inl ⟨hText, by rw [hStored, h]⟩)
      simp [hText, Value.string, hNotEmpty]
    · rw [if_neg hText, Value.isUndefined_of_present (shape_present hShape), Bool.not_false]
  · rintro ⟨before, after, hSplit, q, hq, hBeside, hWritten⟩
    exact hKept (Or.inr ⟨hSome, before, after, hSplit, q, hq, hBeside,
      (written_beside hPlan legal hp hExclusive hSome hSplit hq hBeside).1 hWritten⟩)

/-- **A lost property is not written or replaced.** -/
theorem dropped_of_lost (hExclusive : plan.Exclusive s) (hLost : plan.Lost scope s p) :
    p.written scope s = false ∨ plan.Replaced scope s p := by
  rcases hLost with ⟨hText, hStored⟩ | ⟨hSome, before, after, hSplit, q, hq, hBeside, hDefault⟩
  · have hMap : p.isMap = false := by
      simp only [Property.isText, Bool.and_eq_true, Bool.not_eq_true'] at hText
      exact hText.2
    left
    rw [written_eq hMap, Property.value_of_some hStored, if_pos hText]
    rfl
  · exact Or.inr ⟨before, after, hSplit, q, hq, hBeside,
      (written_beside hPlan legal hp hExclusive hSome hSplit hq hBeside).2 hDefault⟩

end Populated

end Instances

end Protoscribe

import Protoscribe.Proofs.Evaluation.Program
import Protoscribe.Proofs.Message.Properties

set_option autoImplicit false

/-! # The members of a class by name

Where the names in a message can be told apart, the accessors of a property are the only members
of its name (`filter_defines`), so the name leads to them. The methods of the binary form are found
under their names in every class.
-/

namespace Protoscribe

open TypeScript Evaluation

/-- The names that every class defines on its instances. -/
def generatedNames : List String := ["constructor", "toObject", "serialize", "serializeBinary"]

/-- The names in a message can be told apart from each other and from the generated ones. -/
structure MessageDescriptor.DistinctNames (m : MessageDescriptor) : Prop where
  fields : (m.fields.map FieldDescriptor.name).Nodup
  oneofs : ∀ f ∈ m.fields, f.name ∉ m.oneofs
  generated : ∀ f ∈ m.fields, f.name ∉ generatedNames

variable {scope : Scope} {m : MessageDescriptor} {plan : Plan}

/-! ## Properties -/

theorem filter_defines_accessors {properties : List Property}
    (hNodup : (properties.map Property.name).Nodup) {p : Property} (hp : p ∈ properties) :
    (properties.flatMap fun q => [Access.getter scope q, Access.setter scope plan q]).filter
        (defines false p.name) = [Access.getter scope p, Access.setter scope plan p] := by
  induction properties with
  | nil => cases hp
  | cons q properties ih =>
      obtain ⟨hFirst, hRest⟩ := List.nodup_cons.1 hNodup
      rw [List.flatMap_cons, List.filter_append]
      have hNone : ∀ {name : String}, name ∉ properties.map Property.name →
          (properties.flatMap fun q => [Access.getter scope q, Access.setter scope plan q]).filter
            (defines false name) = [] := by
        intro name hName
        rw [List.filter_eq_nil_iff]
        intro member hMember
        obtain ⟨r, hr, hMember⟩ := List.mem_flatMap.1 hMember
        have hDifferent : r.name ≠ name := by
          rintro rfl
          exact hName (List.mem_map.2 ⟨r, hr, rfl⟩)
        rcases List.mem_pair.1 hMember with rfl | rfl <;>
          simp [Access.getter, Access.setter, defines, hDifferent]
      rcases List.mem_cons.1 hp with rfl | hp
      · rw [hNone hFirst]
        simp [Access.getter, Access.setter, defines]
      · have hDifferent : q.name ≠ p.name := fun h =>
          hFirst (h ▸ List.mem_map.2 ⟨p, hp, rfl⟩)
        rw [ih hRest hp]
        simp [Access.getter, Access.setter, defines, hDifferent]

theorem names_of_plan (hPlan : scope.plan m = .ok plan) :
    plan.properties.map Property.name = m.fields.map FieldDescriptor.name := by
  rw [← plan_descriptors hPlan, List.map_map]
  rfl

/-- **The members named like a property are its getter and its setter.** -/
theorem filter_defines (hPlan : scope.plan m = .ok plan) (names : m.DistinctNames) {p : Property}
    (hp : p ∈ plan.properties) :
    (plan.members scope).filter (defines false p.name) =
      [Access.getter scope p, Access.setter scope plan p] := by
  obtain ⟨hField, -, -⟩ := property_of_plan hPlan hp
  have hOneofs : p.name ∉ plan.oneofs := by
    rw [(Scope.plan_eq_ok hPlan).1]
    exact names.oneofs _ hField
  have hGenerated : p.name ∉ generatedNames := names.generated _ hField
  simp only [generatedNames, List.mem_cons, List.not_mem_nil, or_false, not_or] at hGenerated
  obtain ⟨hConstructor, hToObject, hSerialize, hSerializeBinary⟩ := hGenerated
  have hAccessors : (Access.accessors scope plan).filter (defines false p.name) =
      [Access.getter scope p, Access.setter scope plan p] :=
    filter_defines_accessors (by rw [names_of_plan hPlan]; exact names.fields) hp
  have hCases : (Access.caseGetters scope plan).filter (defines false p.name) = [] := by
    rw [List.filter_eq_nil_iff]
    intro member hMember
    obtain ⟨index, hIndex, rfl⟩ := List.mem_mapIdx.1 hMember
    have hDifferent : plan.oneofs[index] ≠ p.name := fun h => hOneofs (h ▸ List.getElem_mem hIndex)
    simp [Access.caseGetter, defines, hDifferent]
  simp only [Plan.members, List.filter_append, hAccessors, hCases]
  simp [Instance.constructor, Plain.fromObject, Plain.toObject, Codec.serialize, Codec.overload,
    Codec.deserialize, Codec.byteMethods, defines, hConstructor, Ne.symm hToObject,
    Ne.symm hSerialize, Ne.symm hSerializeBinary]

theorem getter?_property (hPlan : scope.plan m = .ok plan) (names : m.DistinctNames)
    {p : Property} (hp : p ∈ plan.properties) :
    getter? (plan.members scope) p.name =
      some [.give (.cast (Access.stored scope p) p.type)] := by
  rw [getter?, filter_defines hPlan names hp]
  rfl

theorem setter?_property (hPlan : scope.plan m = .ok plan) (names : m.DistinctNames)
    {p : Property} (hp : p ∈ plan.properties) :
    setter? (plan.members scope) p.name =
      some (.typed "value" p.type, [.expr (Access.store scope plan p)]) := by
  rw [setter?, filter_defines hPlan names hp]
  rfl

/-! ## Methods -/

theorem method?_serialize (scope : Scope) (plan : Plan) :
    method? (plan.members scope) false "serialize" =
      some ([.optionalTyped "w" (Codec.writerType scope)], Codec.serializeBody scope plan) := by
  rw [method?, Plan.members, Codec.serialize]
  simp only [List.filter_append]
  simp [Codec.overload, Codec.deserialize, Codec.byteMethods, defines, List.filter, methodBody?]

theorem method?_deserialize (scope : Scope) (plan : Plan) :
    method? (plan.members scope) true "deserialize" =
      some ([.typed "bytes" (.union [Codec.bytesType, Codec.readerType scope])],
        Codec.deserializeBody scope plan) := by
  rw [method?, Plan.members]
  simp only [List.filter_append]
  simp [Codec.deserialize, Codec.byteMethods, defines, List.filter, methodBody?]

theorem constructorBody?_members (scope : Scope) (plan : Plan) :
    (plan.members scope).findSome? constructorBody? =
      constructorBody? (Instance.constructor scope plan) := rfl

end Protoscribe

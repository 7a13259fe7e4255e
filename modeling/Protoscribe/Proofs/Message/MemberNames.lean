import Protoscribe.Proofs.Message.ClassMembers
import Protoscribe.Proofs.Message.Lookup

set_option autoImplicit false

/-! # Which members share a name

A class takes the names of its accessors from the message as they are and brings methods of its own.
Main statement: `members_apart_iff`. Where the fields and oneofs of a message have different names,
two members of the class have the same name only if they are made to, as a getter and its setter
are, exactly when no field and no oneof is named like a member that every class has
(`generatedNames`). The static members are the same in every class, and their names are different.
-/

namespace Protoscribe

open TypeScript Checked

/-! ## Names of members -/

namespace TypeScript.Member

/-- The name that a member has in its class; an index signature has none. -/
def name? : Member → Option String
  | .constructor .. => some "constructor"
  | .getter name _ => some name
  | .setter name .. => some name
  | .method name .. => some name
  | .property name .. => some name
  | .index _ => none

/-- Whether a member belongs to the class and not to its instances. -/
def isStatic : Member → Bool
  | .method _ isStatic .. => isStatic
  | .property _ isStatic .. => isStatic
  | _ => false

/-- The members that may share their name with one before them: the setter behind the getter, and
behind a signature of `serialize` another one or the method itself. -/
inductive Continues : Member → Member → Prop
  | setter {name : String} {body stores : List Stmt} {param : Param} :
      Continues (.getter name body) (.setter name param stores)
  | overload {params others : List Param} {result other : Option Ty} {body : Option (List Stmt)} :
      Continues (.method "serialize" false false params result none)
        (.method "serialize" false false others other body)

/-- The members collide: they have the same name, and the second does not continue the first. -/
def Collides (a b : Member) : Prop :=
  (∃ name, a.name? = some name ∧ b.name? = some name) ∧ ¬ Continues a b

/-- No two of the members collide. -/
def Apart (members : List Member) : Prop := members.Pairwise fun a b => ¬ a.Collides b

theorem not_collides {a b : Member} (h : a.name? ≠ b.name?) : ¬ a.Collides b := by
  rintro ⟨⟨name, ha, hb⟩, -⟩
  exact h (ha.trans hb.symm)

theorem apart_of_nodup {members : List Member} (h : (members.map name?).Nodup) :
    Apart members :=
  (List.pairwise_map.1 h).imp not_collides

/-- Lists of members without a common name stay apart. -/
theorem apart_append {a b : List Member} (ha : Apart a) (hb : Apart b)
    (h : (a.map name?).Disjoint (b.map name?)) : Apart (a ++ b) := by
  refine List.pairwise_append.2 ⟨ha, hb, fun x hx y hy => not_collides fun hSame => ?_⟩
  exact h (List.mem_map_of_mem hx) (hSame ▸ List.mem_map_of_mem hy)

end TypeScript.Member

open Member

variable {scope : Scope} {m : MessageDescriptor} {plan : Plan}

/-! ## Members named by the message -/

/-- The names that a message gives to members of its class. -/
def MessageDescriptor.memberNames (m : MessageDescriptor) : List String :=
  m.fields.map FieldDescriptor.name ++ m.oneofs

/-- The accessors of the properties and of the oneofs. -/
def Plan.named (scope : Scope) (plan : Plan) : List Member :=
  Access.accessors scope plan ++ Access.caseGetters scope plan

theorem map_name_caseGetters (scope : Scope) (plan : Plan) :
    (Access.caseGetters scope plan).map name? = plan.oneofs.map some := by
  apply List.ext_getElem
  · simp [Access.caseGetters]
  · intro index _ _
    simp [Access.caseGetters, Access.caseGetter, name?]

theorem mem_memberNames (hPlan : scope.plan m = .ok plan) {name : String} :
    name ∈ m.memberNames ↔ name ∈ plan.properties.map Property.name ∨ name ∈ plan.oneofs := by
  rw [MessageDescriptor.memberNames, List.mem_append, names_of_plan hPlan,
    (Scope.plan_eq_ok hPlan).1]

theorem name_of_accessor {member : Member} (h : member ∈ Access.accessors scope plan) :
    ∃ p ∈ plan.properties, member.name? = some p.name := by
  obtain ⟨p, hp, hMember⟩ := List.mem_flatMap.1 h
  refine ⟨p, hp, ?_⟩
  rcases List.mem_pair.1 hMember with rfl | rfl <;> rfl

/-- An accessor has a name of the message. -/
theorem name_of_named (hPlan : scope.plan m = .ok plan) {member : Member}
    (h : member ∈ plan.named scope) : ∃ name ∈ m.memberNames, member.name? = some name := by
  rcases List.mem_append.1 h with hAccessor | hCase
  · obtain ⟨p, hp, hName⟩ := name_of_accessor hAccessor
    exact ⟨p.name, (mem_memberNames hPlan).2 (.inl (List.mem_map_of_mem hp)), hName⟩
  · have hName : member.name? ∈ plan.oneofs.map some :=
      map_name_caseGetters scope plan ▸ List.mem_map_of_mem hCase
    obtain ⟨name, hOneof, hName⟩ := List.mem_map.1 hName
    exact ⟨name, (mem_memberNames hPlan).2 (.inr hOneof), hName.symm⟩

/-- Each name of the message is the name of a getter. -/
theorem exists_getter (hPlan : scope.plan m = .ok plan) {name : String}
    (h : name ∈ m.memberNames) : ∃ body, .getter name body ∈ plan.named scope := by
  rcases (mem_memberNames hPlan).1 h with hProperty | hOneof
  · obtain ⟨p, hp, rfl⟩ := List.mem_map.1 hProperty
    exact ⟨_, List.mem_append_left _ (List.mem_flatMap.2 ⟨p, hp, List.mem_cons_self⟩)⟩
  · obtain ⟨index, hIndex, rfl⟩ := List.mem_iff_getElem.1 hOneof
    exact ⟨_, List.mem_append_right _ (List.mem_mapIdx.2 ⟨index, hIndex, rfl⟩)⟩

theorem apart_accessors (h : (plan.properties.map Property.name).Nodup) :
    Apart (Access.accessors scope plan) := by
  refine List.pairwise_flatMap.2 ⟨fun p _ => ?_, ?_⟩
  · -- one property: its setter continues its getter
    rw [List.pairwise_pair]
    exact fun hCollides => hCollides.2 .setter
  · refine (List.pairwise_map.1 h).imp fun {p q} hDifferent a ha b hb => not_collides ?_
    rcases List.mem_pair.1 ha with rfl | rfl <;> rcases List.mem_pair.1 hb with rfl | rfl <;>
      exact fun hSame => hDifferent (Option.some.inj hSame)

/-- **The accessors do not collide** where the fields and oneofs have different names. -/
theorem apart_named (hPlan : scope.plan m = .ok plan) (names : m.memberNames.Nodup) :
    Apart (plan.named scope) := by
  rw [MessageDescriptor.memberNames, ← names_of_plan hPlan, ← (Scope.plan_eq_ok hPlan).1,
    List.nodup_append] at names
  obtain ⟨hProperties, hOneofs, hBetween⟩ := names
  have hCases : Apart (Access.caseGetters scope plan) := by
    refine apart_of_nodup ?_
    rw [map_name_caseGetters]
    exact List.Pairwise.map some (fun _ _ => mt Option.some.inj) hOneofs
  refine apart_append (apart_accessors hProperties) hCases ?_
  rw [map_name_caseGetters]
  intro name hName hOneof
  obtain ⟨member, hMember, rfl⟩ := List.mem_map.1 hName
  obtain ⟨p, hp, hName⟩ := name_of_accessor hMember
  obtain ⟨oneof, hOneof, hSame⟩ := List.mem_map.1 hOneof
  exact hBetween _ (List.mem_map_of_mem hp) _ hOneof (Option.some.inj (hName.symm.trans hSame.symm))

/-! ## Members of every class -/

/-- The methods of a class. -/
def Plan.methods (scope : Scope) (plan : Plan) : List Member :=
  [Plain.fromObject scope plan, Plain.toObject scope plan] ++ Codec.serialize scope plan ++
    [Codec.deserialize scope plan] ++ Codec.byteMethods plan

/-- The methods of an instance. -/
def Plan.instanceMethods (scope : Scope) (plan : Plan) : List Member :=
  (plan.methods scope).filter (!·.isStatic)

theorem members_eq (scope : Scope) (plan : Plan) : plan.members scope =
    Instance.constructor scope plan :: (plan.named scope ++ plan.methods scope) := by
  simp [Plan.members, Plan.named, Plan.methods]

theorem isStatic_named {member : Member} (h : member ∈ plan.named scope) :
    member.isStatic = false := by
  rcases List.mem_append.1 h with hAccessor | hCase
  · obtain ⟨p, -, hMember⟩ := List.mem_flatMap.1 hAccessor
    rcases List.mem_pair.1 hMember with rfl | rfl <;> rfl
  · obtain ⟨index, -, rfl⟩ := List.mem_mapIdx.1 hCase
    rfl

/-- The static members are the static methods. -/
theorem static_members (scope : Scope) (plan : Plan) :
    ((plan.members scope).filter (·.isStatic)).map name? =
      [some "fromObject", some "deserialize", some "deserializeBinary"] := by
  have hNamed : (plan.named scope).filter (·.isStatic) = [] := by
    rw [List.filter_eq_nil_iff]
    intro member hMember
    simp [isStatic_named hMember]
  rw [members_eq, List.filter_cons_of_neg (by simp [Instance.constructor, isStatic]),
    List.filter_append, hNamed]
  rfl

/-- The members of an instance are the constructor, the accessors and the methods. -/
theorem instance_members (scope : Scope) (plan : Plan) :
    (plan.members scope).filter (!·.isStatic) =
      Instance.constructor scope plan :: (plan.named scope ++ plan.instanceMethods scope) := by
  have hNamed : (plan.named scope).filter (!·.isStatic) = plan.named scope := by
    rw [List.filter_eq_self]
    intro member hMember
    simp [isStatic_named hMember]
  rw [members_eq, List.filter_cons_of_pos (by simp [Instance.constructor, isStatic]),
    List.filter_append, hNamed, Plan.instanceMethods]

theorem names_instanceMethods (scope : Scope) (plan : Plan) :
    (plan.instanceMethods scope).map name? = [some "toObject", some "serialize",
      some "serialize", some "serialize", some "serializeBinary"] := rfl

/-- The generated names are those of the constructor and of the methods of an instance. -/
theorem mem_generatedNames (scope : Scope) (plan : Plan) {name : String} :
    name ∈ generatedNames ↔
      name = "constructor" ∨ some name ∈ (plan.instanceMethods scope).map name? := by
  rw [names_instanceMethods]
  simp [generatedNames]

/-- No method of an instance continues a getter. -/
theorem not_continues_getter {name : String} {body : List Stmt} {member : Member}
    (h : member ∈ plan.instanceMethods scope) : ¬ Continues (.getter name body) member := by
  rintro ⟨⟩
  simp [Plan.instanceMethods, Plan.methods, Plain.fromObject, Plain.toObject, Codec.serialize,
    Codec.overload, Codec.deserialize, Codec.byteMethods, isStatic] at h

/-- The methods of an instance do not collide: those of one name are the overloads. -/
theorem apart_instanceMethods (scope : Scope) (plan : Plan) :
    Apart (plan.instanceMethods scope) := by
  have hOverloads : Apart (Codec.serialize scope plan) := by
    have hContinue (params others : List Param) (result other : Ty) (body : Option (List Stmt)) :
        ¬ (Codec.overload params result none).Collides (Codec.overload others other body) :=
      fun hCollides => hCollides.2 .overload
    simp [Apart, Codec.serialize, hContinue]
  have hMethods : plan.instanceMethods scope = [Plain.toObject scope plan] ++
      (Codec.serialize scope plan ++ (Codec.byteMethods plan).filter (!·.isStatic)) := rfl
  have hBytes : ((Codec.byteMethods plan).filter (!·.isStatic)).map name? =
      [some "serializeBinary"] := rfl
  have hSerialize : (Codec.serialize scope plan).map name? =
      [some "serialize", some "serialize", some "serialize"] := rfl
  rw [hMethods]
  refine apart_append (List.pairwise_singleton _ _) (apart_append hOverloads ?_ ?_) ?_
  · exact apart_of_nodup (by simp [hBytes])
  · simp [hBytes, hSerialize]
  · simp [hBytes, hSerialize, Plain.toObject, name?]

/-! ## All members -/

/-- The members of an instance do not collide exactly when the message uses no generated name. -/
theorem apart_members_iff (hPlan : scope.plan m = .ok plan) (names : m.memberNames.Nodup) :
    Apart ((plan.members scope).filter (!·.isStatic)) ↔
      ∀ name ∈ m.memberNames, name ∉ generatedNames := by
  rw [instance_members]
  constructor
  · intro hApart name hName hGenerated
    obtain ⟨body, hGetter⟩ := exists_getter hPlan hName
    obtain ⟨hFirst, hRest⟩ := List.pairwise_cons.1 hApart
    rcases (mem_generatedNames scope plan).1 hGenerated with rfl | hMethod
    · exact hFirst _ (List.mem_append_left _ hGetter) ⟨⟨_, rfl, rfl⟩, fun h => nomatch h⟩
    · obtain ⟨method, hMethod, hSame⟩ := List.mem_map.1 hMethod
      exact (List.pairwise_append.1 hRest).2.2 _ hGetter _ hMethod
        ⟨⟨name, rfl, hSame⟩, not_continues_getter hMethod⟩
  · intro hNames
    have hUnused : ((plan.named scope).map name?).Disjoint (generatedNames.map some) := by
      intro name? hName hGenerated
      obtain ⟨member, hMember, rfl⟩ := List.mem_map.1 hName
      obtain ⟨name, hGiven, hName⟩ := name_of_named hPlan hMember
      obtain ⟨generated, hGenerated, hSame⟩ := List.mem_map.1 hGenerated
      obtain rfl := Option.some.inj (hSame.trans hName)
      exact hNames _ hGiven hGenerated
    have hBetween : ((plan.named scope).map name?).Disjoint
        ((plan.instanceMethods scope).map name?) := by
      rw [names_instanceMethods]
      exact List.disjoint_of_subset_right (by decide) hUnused
    have hConstructor : [some "constructor"].Disjoint
        ((plan.named scope ++ plan.instanceMethods scope).map name?) := by
      rw [List.map_append, names_instanceMethods, List.disjoint_append_right]
      exact ⟨List.disjoint_of_subset_left (by decide) (List.disjoint_symm hUnused), by simp⟩
    exact apart_append (a := [Instance.constructor scope plan]) (List.pairwise_singleton _ _)
      (apart_append (apart_named hPlan names) (apart_instanceMethods scope plan) hBetween)
      hConstructor

/-- **Which classes have members of the same name.** In the class of a message whose fields and
oneofs have different names, the static members have different names; and two members of an instance
have the same name only as a getter and its setter or as overloads of `serialize`, exactly when no
field and no oneof is named like the constructor or a method of an instance. -/
theorem members_apart_iff {decls : List Decl} (hDecls : scope.messageDecls m = .ok decls)
    (names : m.memberNames.Nodup) :
    ∃ decl rest, decls = .classDecl decl :: rest ∧ decl.name = m.name ∧
      ((decl.members.filter (·.isStatic)).map name?).Nodup ∧
      (Apart (decl.members.filter (!·.isStatic)) ↔
        ∀ name ∈ m.memberNames, name ∉ generatedNames) := by
  obtain ⟨plan, inner, hPlan, -, rfl⟩ := Scope.messageDecls_eq_ok.1 hDecls
  refine ⟨_, _, rfl, Scope.plan_name hPlan, ?_, apart_members_iff hPlan names⟩
  rw [static_members]
  decide

/-- A message with two texts, the second of them with the given name and in a oneof. -/
def twoTexts (second : String) : MessageDescriptor :=
  ⟨some "Note",
    [⟨some "text", some 1, .optional, some 9, none, "", none, false, false, false⟩,
      ⟨some second, some 2, .optional, some 9, none, "", some 0, false, false, false⟩],
    [], [], ["kind"], false⟩

def textsScope : Scope := .ofFile Registry.empty .blank

theorem members_apart_iff_twoTexts :
    ∃ decl rest, textsScope.messageDecls (twoTexts "place") = .ok (.classDecl decl :: rest) ∧
      (twoTexts "place").memberNames.Nodup ∧
      ((decl.members.filter (·.isStatic)).map name?).Nodup ∧
      Apart (decl.members.filter (!·.isStatic)) := by
  obtain ⟨decls, hDecls⟩ : ∃ decls, textsScope.messageDecls (twoTexts "place") = .ok decls :=
    ⟨_, rfl⟩
  have hNames : (twoTexts "place").memberNames.Nodup := by decide
  obtain ⟨decl, rest, rfl, -, hStatic, hApart⟩ := members_apart_iff hDecls hNames
  exact ⟨decl, rest, hDecls, hNames, hStatic, hApart.2 (by decide)⟩

/-- Names are taken as they are, and none is reserved, so a field may be named like a method of every
instance. Then its getter and the method have the same name, and the method does not continue the
getter. -/
theorem getter_collides_with_method :
    ∃ decl rest getter method,
      textsScope.messageDecls (twoTexts "toObject") = .ok (.classDecl decl :: rest) ∧
      (twoTexts "toObject").memberNames.Nodup ∧
      [getter, method].Sublist (decl.members.filter (!·.isStatic)) ∧
      getter.name? = some "toObject" ∧ method.name? = some "toObject" ∧
      ¬ Continues getter method := by
  obtain ⟨plan, hPlan⟩ : ∃ plan, textsScope.plan (twoTexts "toObject") = .ok plan := ⟨_, rfl⟩
  obtain ⟨decls, hDecls⟩ : ∃ decls, textsScope.messageDecls (twoTexts "toObject") = .ok decls :=
    ⟨_, rfl⟩
  obtain ⟨other, inner, hOther, -, rfl⟩ := Scope.messageDecls_eq_ok.1 hDecls
  obtain rfl : other = plan := Except.ok.inj (hOther.symm.trans hPlan)
  have hUsed : "toObject" ∈ (twoTexts "toObject").memberNames := by decide
  obtain ⟨body, hGetter⟩ := exists_getter hPlan hUsed
  have hMethod : Plain.toObject textsScope other ∈ other.instanceMethods textsScope :=
    List.mem_cons_self
  refine ⟨_, _, .getter "toObject" body, Plain.toObject textsScope other, hDecls, by decide, ?_,
    rfl, rfl, not_continues_getter hMethod⟩
  have hBoth := (List.singleton_sublist.2 hGetter).append (List.singleton_sublist.2 hMethod)
  exact instance_members textsScope other ▸ hBoth.cons _

end Protoscribe

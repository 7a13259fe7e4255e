import Protoscribe.Proofs.Message.FromPlain
import Protoscribe.Proofs.Message.RoundTrip

set_option autoImplicit false

/-! # Instances that agree

Two instances agree when no getter tells them apart; maps are compared as finite maps
(`Agrees`, and `agrees_getter` for the emitted getters). Plain objects are compared up to the order
of their properties (`Reordered`), because a plain object does not keep the order of all keys.
-/

namespace Protoscribe

open TypeScript Evaluation

instance : Inhabited Value := ⟨.undefined⟩

/-! ## Plain objects up to order -/

/-- A value without parts. -/
def Evaluation.Value.isAtom : Value → Bool
  | .undefined => true
  | .scalar _ => true
  | .symbol _ => true
  | _ => false

/-- The same value, but for the order of the properties of the plain objects in it. -/
inductive Reordered : Value → Value → Prop
  | same (v : Value) : Reordered v v
  | list {pairs : List (Value × Value)} (items : ∀ pair ∈ pairs, Reordered pair.1 pair.2) :
      Reordered (.list (pairs.map Prod.fst)) (.list (pairs.map Prod.snd))
  | record {before after : List (String × Value)}
      (names : (after.map Prod.fst).Perm (before.map Prod.fst))
      (values : ∀ name v w, (name, v) ∈ before → (name, w) ∈ after → Reordered v w) :
      Reordered (.record before) (.record after)

namespace Reordered

theorem isMissing_eq {v w : Value} (h : Reordered v w) : w.isMissing = v.isMissing := by
  cases h <;> rfl

theorem eq_of_isAtom {v w : Value} (h : Reordered v w) (atom : v.isAtom) : w = v := by
  cases h with
  | same => rfl
  | list => cases atom
  | record => cases atom

/-- The elements of a list are reordered one by one. -/
theorem list_inv {α : Type} {f : α → Value} {as : List α} {w : Value}
    (h : Reordered (.list (as.map f)) w) :
    ∃ pairs : List (α × Value), as = pairs.map Prod.fst ∧ w = .list (pairs.map Prod.snd) ∧
      ∀ pair ∈ pairs, Reordered (f pair.1) pair.2 := by
  -- both ways of reordering a list relate its elements one by one
  obtain ⟨items, rfl, hAll⟩ : ∃ items, w = .list items ∧
      List.Forall₂ Reordered (as.map f) items := by
    generalize as.map f = before at h
    cases h with
    | same => exact ⟨_, rfl, List.forall₂_same.2 fun v _ => .same v⟩
    | list items =>
        exact ⟨_, rfl, List.forall₂_map_left_iff.2
          (List.forall₂_map_right_iff.2 (List.forall₂_same.2 items))⟩
  rw [List.forall₂_map_left_iff] at hAll
  have hLength := hAll.length_eq
  refine ⟨as.zip items, (List.map_fst_zip hLength.le).symm, ?_, fun pair hPair => ?_⟩
  · rw [List.map_snd_zip hLength.ge]
  · exact (List.forall₂_iff_zip.1 hAll).2 hPair

theorem eq_of_atoms {items : List Value} {w : Value} (h : Reordered (.list items) w)
    (atoms : ∀ item ∈ items, item.isAtom) : w = .list items := by
  rw [← items.map_id] at h
  obtain ⟨pairs, rfl, rfl, hPairs⟩ := h.list_inv
  congr 1
  refine List.map_congr_left fun pair hPair => ?_
  exact (hPairs pair hPair).eq_of_isAtom (atoms _ (List.mem_map_of_mem hPair))

/-- The properties of a plain object are reordered one by one, and put in another order. -/
theorem record_inv {α : Type} {key : α → String} {value : α → Value} {as : List α} {w : Value}
    (h : Reordered (.record (as.map fun a => (key a, value a))) w) :
    ∃ after, w = .record after ∧ (after.map Prod.fst).Perm (as.map key) ∧
      ∀ property ∈ after, ∃ a ∈ as, property.1 = key a ∧ Reordered (value a) property.2 := by
  have hKeys : (as.map fun a => (key a, value a)).map Prod.fst = as.map key := by
    rw [List.map_map]
    rfl
  generalize hBefore : (as.map fun a => (key a, value a)) = before at h hKeys
  cases h with
  | same =>
      refine ⟨before, rfl, .of_eq hKeys, fun property hMem => ?_⟩
      obtain ⟨a, ha, rfl⟩ := List.mem_map.1 (hBefore ▸ hMem)
      exact ⟨a, ha, rfl, .same _⟩
  | @record _ after names values =>
      rw [hKeys] at names
      refine ⟨after, rfl, names, fun ⟨name, w⟩ hMem => ?_⟩
      obtain ⟨a, ha, rfl⟩ := List.mem_map.1 (names.mem_iff.1 (List.mem_map_of_mem hMem))
      exact ⟨a, ha, rfl, values _ _ _ (hBefore ▸ List.mem_map_of_mem ha) hMem⟩

/-- A property is looked up in a plain object whose properties were put in another order. -/
theorem lookup {α : Type} {key : α → String} {value : α → Value} {as : List α} {w : Value}
    (h : Reordered (.record (as.map fun a => (key a, value a))) w)
    (distinct : (as.map key).Nodup) :
    ∃ properties, w = .record properties ∧
      (∀ a ∈ as, ∃ v, properties.lookup (key a) = some v ∧ Reordered (value a) v) ∧
      ∀ name, name ∉ as.map key → properties.lookup name = none := by
  obtain ⟨properties, rfl, hNames, hEach⟩ := h.record_inv
  have hSame : properties.map (fun property => (property.1, property.2)) = properties :=
    properties.map_id
  refine ⟨properties, rfl, fun a ha => ?_, fun name hNew => ?_⟩
  · obtain ⟨property, hMem, hKey⟩ :=
      List.mem_map.1 (hNames.mem_iff.2 (List.mem_map_of_mem ha))
    obtain ⟨b, hb, hName, hReordered⟩ := hEach property hMem
    cases List.inj_on_of_nodup_map distinct ha hb (hKey.symm.trans hName)
    -- reordering keeps names apart, so the lookup can only find this property
    have hOnly : ∀ other ∈ properties, other.1 = property.1 → other = property :=
      fun other hOther hOtherKey =>
        List.inj_on_of_nodup_map (hNames.nodup_iff.2 distinct) hOther hMem hOtherKey
    have hFound := @lookup_mem _ Prod.fst Prod.snd property properties hOnly hMem
    rw [hSame, hKey] at hFound
    exact ⟨property.2, hFound, hReordered⟩
  · rw [← hSame]
    exact lookup_new fun property hMem hName => hNew
      (hName ▸ hNames.mem_iff.1 (List.mem_map_of_mem hMem))

end Reordered

/-! ## Values that agree -/

/-- Values that no getter can tell apart. Maps have the same keys, in any order. -/
inductive Agrees (P : Program) : Value → Value → Prop
  | same (v : Value) : Agrees P v v
  | list {pairs : List (Value × Value)} (items : ∀ pair ∈ pairs, Agrees P pair.1 pair.2) :
      Agrees P (.list (pairs.map Prod.fst)) (.list (pairs.map Prod.snd))
  | map {before after : List (Scalar × Value)}
      (keys : (after.map Prod.fst).Perm (before.map Prod.fst))
      (values : ∀ key v w, (key, v) ∈ before → (key, w) ∈ after → Agrees P v w) :
      Agrees P (.map before) (.map after)
  | instance {typeName : String} {scope : Scope} {m : MessageDescriptor} {plan : Plan}
      {s t : Fields} (known : ClassOf P typeName scope m plan)
      (values : ∀ p ∈ plan.properties, Agrees P (p.value scope s) (p.value scope t))
      (cases : ∀ index, plan.caseOf index t = plan.caseOf index s) :
      Agrees P (.instance typeName s) (.instance typeName t)

section Getters

variable {scope : Scope} {plan : Plan} {fuel : Nat} {call : Invocation → M Value}
  {σ : Store} {typeName : String}

/-- The getters of a class are those of its properties and of its oneofs. -/
theorem getter_mem {name : String} {body : List Stmt}
    (h : Member.getter name body ∈ plan.members scope) :
    (∃ p ∈ plan.properties, Member.getter name body = Access.getter scope p) ∨
      ∃ index, ∃ oneof, Member.getter name body = Access.caseGetter scope plan index oneof := by
  simp only [Plan.members, List.mem_append] at h
  rcases h with (((((h | h) | h) | h) | h) | h) | h
  · simp [Instance.constructor] at h
  · obtain ⟨p, hp, h⟩ := List.mem_flatMap.1 h
    rcases List.mem_pair.1 h with h | h
    · exact Or.inl ⟨p, hp, h⟩
    · simp [Access.setter] at h
  · obtain ⟨index, hIndex, h⟩ := List.mem_mapIdx.1 h
    exact Or.inr ⟨index, _, h.symm⟩
  · simp [Plain.fromObject, Plain.toObject] at h
  · simp [Codec.serialize, Codec.overload] at h
  · simp [Codec.deserialize] at h
  · simp [Codec.byteMethods] at h

/-- The table of a oneof has an entry for every number that is looked up. -/
theorem exists_case (plan : Plan) (index : Nat) (s : Fields) :
    ∃ result, (caseEntries (plan.group index)).lookup (toString (plan.caseOf index s)) =
      some result := by
  rw [Plan.caseOf, Fields.caseOf]
  cases hFound : ((plan.group index).map Property.number).find? fun n => (s n).isSome with
  | none => exact ⟨.string "none", rfl⟩
  | some number =>
      by_cases hZero : number = 0
      · exact ⟨.string "none", by rw [hZero]; rfl⟩
      · obtain ⟨p, hp, hNumber⟩ := List.mem_map.1 (List.mem_of_find?_eq_some hFound)
        have hSome : ((plan.group index).find? (·.number = number)).isSome := by
          rw [List.find?_isSome]
          exact ⟨p, hp, by simpa using hNumber⟩
        obtain ⟨q, hq⟩ := Option.isSome_iff_exists.1 hSome
        exact ⟨.string q.name, by
          rw [Option.getD_some, lookup_caseEntries _ hZero, hq, Option.map_some]⟩

/-- **Every getter that is emitted gives values that agree.** -/
theorem agrees_getter {P : Program} {m : MessageDescriptor} {s : Fields} {w : Value}
    (hClass : ClassOf P typeName scope m plan) (h : Agrees P (.instance typeName s) w) :
    ∃ t, w = .instance typeName t ∧ ∀ name body, Member.getter name body ∈ plan.members scope →
      ∃ a b, Agrees P a b ∧
        getMember fuel call (namesIn P typeName scope) (.getter name body) (.instance typeName s)
          σ = some (a, σ) ∧
        getMember fuel call (namesIn P typeName scope) (.getter name body) (.instance typeName t)
          σ = some (b, σ) := by
  -- an instance agrees with itself and with instances of its class, nothing else
  have hBoth : ∃ t, w = .instance typeName t ∧
      (∀ p ∈ plan.properties, Agrees P (p.value scope s) (p.value scope t)) ∧
      ∀ index, plan.caseOf index t = plan.caseOf index s := by
    cases h with
    | same => exact ⟨s, rfl, fun p _ => .same _, fun _ => rfl⟩
    | «instance» known values cases =>
        cases known.source.symm.trans hClass.source
        cases known.planned.symm.trans hClass.planned
        exact ⟨_, rfl, values, cases⟩
  obtain ⟨t, rfl, hValues, hCases⟩ := hBoth
  refine ⟨t, rfl, fun name body hMember => ?_⟩
  rcases getter_mem hMember with ⟨p, hp, h⟩ | ⟨index, oneof, h⟩
  · rw [h]
    exact ⟨_, _, hValues p hp, getter_run rfl (hClass.named p hp) s,
      getter_run rfl (hClass.named p hp) t⟩
  · obtain ⟨result, hResult⟩ := exists_case plan index s
    rw [h]
    exact ⟨result, result, .same _, caseGetter_run rfl index oneof hResult,
      caseGetter_run rfl index oneof (by rw [← hCases index] at hResult; exact hResult)⟩

end Getters

end Protoscribe

import Mathlib.Data.List.Chain
import Mathlib.Data.List.Perm.Subperm
import Mathlib.Logic.Relation
import Protoscribe.Proofs.Checked
import Protoscribe.Proofs.Message.Supported

set_option autoImplicit false

/-! # How deep the types of maps nest

The type of a map needs the types of its keys and of its values, which may be maps themselves, and
the registry alone says which. Nothing in the fields gets smaller on the way, so the recursion need
not end; `Scope.valueType` stops it after one step more than there are map entries. Main statement:
`valueType_ends`, where no map entry leads back to itself, the recursion without any bound
(`Scope.Computes`) ends, at most that deep and with the result of `Scope.valueType`; and it fails
exactly when it comes to a group that is not asked for as a string.

The measure is the length of a chain of fields, each needed by the one before it
(`Registry.NestsWithin`). All but the last of them are typed by map entries, whose names are
distinct, so a chain is no longer than the table of map entries (`nestsWithin_size`).
-/

namespace Protoscribe

open TypeScript Checked

/-! ## What a type needs -/

namespace Registry

/-- The type of `f` needs the type of `g`: `f` is typed by a map entry with `g` as its key or its
value. -/
def Needs (registry : Registry) (f g : FieldDescriptor) : Prop :=
  ∃ entry, registry.entryOf? f = some entry ∧ (g = entry.key ∨ g = entry.value)

/-- The map entry `typeName` has a key or a value of the type `other`. -/
def Leads (registry : Registry) (typeName other : String) : Prop :=
  ∃ entry, registry.mapOf? typeName = some entry ∧
    (entry.key.typeName? = some other ∨ entry.value.typeName? = some other)

/-- No map entry reaches itself through the types of keys and values. -/
def Acyclic (registry : Registry) : Prop :=
  ∀ typeName, ¬ Relation.TransGen registry.Leads typeName typeName

/-- A field that has no type: a group, neither typed by a map entry nor asked for as a string. -/
def Untypable (registry : Registry) (f : FieldDescriptor) : Prop :=
  registry.entryOf? f = none ∧ f.type = .group ∧ f.jsString = false

/-- From `f` on, no more than `n` types are needed one after the other. -/
def NestsWithin (registry : Registry) (n : Nat) (f : FieldDescriptor) : Prop :=
  ∀ chain, (f :: chain).IsChain registry.Needs → chain.length ≤ n

variable {registry : Registry} {f g : FieldDescriptor} {entry : MapEntry} {n : Nat}

theorem needs_key (known : registry.entryOf? f = some entry) : registry.Needs f entry.key :=
  ⟨entry, known, Or.inl rfl⟩

theorem needs_value (known : registry.entryOf? f = some entry) : registry.Needs f entry.value :=
  ⟨entry, known, Or.inr rfl⟩

theorem not_needs (unknown : registry.entryOf? f = none) : ¬ registry.Needs f g := by
  rintro ⟨entry, known, -⟩
  rw [unknown] at known
  cases known

theorem NestsWithin.of_needs (h : registry.NestsWithin (n + 1) f) (hNeeds : registry.Needs f g) :
    registry.NestsWithin n g := by
  intro chain hChain
  have hLonger := h (g :: chain) (List.isChain_cons_cons.2 ⟨hNeeds, hChain⟩)
  rw [List.length_cons] at hLonger
  omega

theorem NestsWithin.not_needs (h : registry.NestsWithin 0 f) : ¬ registry.Needs f g := by
  intro hNeeds
  have hLonger := h [g] (List.isChain_cons_cons.2 ⟨hNeeds, List.isChain_singleton g⟩)
  simp at hLonger

/-! ## The longest chain -/

/-- All but the last field of a chain are typed by map entries, each leading to the next one. -/
theorem exists_names {chain : List FieldDescriptor} (h : (f :: chain).IsChain registry.Needs) :
    ∃ names : List String, names.length = chain.length ∧ names.IsChain registry.Leads ∧
      (∀ name ∈ names, name ∈ registry.mapEntries) ∧
      ∀ name ∈ names.head?, f.typeName? = some name := by
  induction chain generalizing f with
  | nil => exact ⟨[], rfl, List.isChain_nil, by simp, by simp⟩
  | cons g chain ih =>
      obtain ⟨⟨entry, known, hSide⟩, hRest⟩ := List.isChain_cons_cons.1 h
      obtain ⟨names, hLength, hLeads, hKnown, hHead⟩ := ih hRest
      obtain ⟨typeName, hTypeName, hEntry⟩ := Option.bind_eq_some_iff.1 known
      have hNext : ∀ name ∈ names.head?, registry.Leads typeName name := by
        intro name hName
        refine ⟨entry, hEntry, ?_⟩
        rcases hSide with rfl | rfl
        · exact Or.inl (hHead name hName)
        · exact Or.inr (hHead name hName)
      have hMem : typeName ∈ registry.mapEntries := by
        rw [Std.ExtTreeMap.mem_iff_isSome_getElem?]
        exact Option.isSome_of_eq_some hEntry
      exact ⟨typeName :: names, congrArg Nat.succ hLength, List.isChain_cons.2 ⟨hNext, hLeads⟩,
        List.forall_mem_cons.2 ⟨hMem, hKnown⟩, by simpa using hTypeName⟩

/-- Where no map entry reaches itself, one that leads on and on never comes again. -/
theorem Acyclic.nodup (acyclic : registry.Acyclic) {names : List String}
    (h : names.IsChain registry.Leads) : names.Nodup := by
  have hReaches : names.Pairwise (Relation.TransGen registry.Leads) :=
    (h.imp fun _ _ => Relation.TransGen.single).pairwise
  refine hReaches.imp fun {a b} hReach hEq => ?_
  subst hEq
  exact acyclic a hReach

/-- **No chain is longer than the table of map entries.** -/
theorem nestsWithin_size (acyclic : registry.Acyclic) (f : FieldDescriptor) :
    registry.NestsWithin registry.mapEntries.size f := by
  intro chain hChain
  obtain ⟨names, hLength, hLeads, hKnown, -⟩ := exists_names hChain
  have hKeys : names ⊆ registry.mapEntries.keys := fun name hName =>
    Std.ExtTreeMap.mem_keys.2 (hKnown name hName)
  calc chain.length = names.length := hLength.symm
    _ ≤ registry.mapEntries.keys.length :=
        (List.subperm_of_subset (acyclic.nodup hLeads) hKeys).length_le
    _ = registry.mapEntries.size := Std.ExtTreeMap.length_keys

end Registry

/-! ## The recursion without a bound -/

/-- Finding the type of a value ends with `result`, after calls that nest `depth` deep. The type of
the values of a map is found after the type of its keys, and not at all when there is none. -/
inductive Scope.Computes (scope : Scope) : FieldDescriptor → Nat → Except Failure Ty → Prop
  | plain {f : FieldDescriptor} (unknown : scope.mapOf? f = none) :
      scope.Computes f 1 (scope.plainType f)
  | keyFails {f : FieldDescriptor} {entry : MapEntry} {depth : Nat} {failure : Failure}
      (known : scope.mapOf? f = some entry)
      (key : scope.Computes entry.key depth (.error failure)) :
      scope.Computes f (depth + 1) (.error failure)
  | map {f : FieldDescriptor} {entry : MapEntry} {keyDepth depth : Nat} {keyType : Ty}
      {result : Except Failure Ty} (known : scope.mapOf? f = some entry)
      (key : scope.Computes entry.key keyDepth (.ok keyType))
      (value : scope.Computes entry.value depth result) :
      scope.Computes f (max keyDepth depth + 1)
        (result.map fun valueType => .reference "Map" [keyType, valueType])

section Recursion

variable {scope : Scope} {f : FieldDescriptor} {depth : Nat} {result : Except Failure Ty}

/-- The recursion has one outcome. -/
theorem Scope.Computes.unique (h : scope.Computes f depth result) :
    ∀ {depth' : Nat} {result' : Except Failure Ty}, scope.Computes f depth' result' →
      depth' = depth ∧ result' = result := by
  induction h with
  | plain unknown =>
      intro depth' result' h'
      cases h' with
      | plain => exact ⟨rfl, rfl⟩
      | keyFails known | map known => cases unknown.symm.trans known
  | keyFails known _ ihKey =>
      intro depth' result' h'
      cases h' with
      | plain unknown => cases unknown.symm.trans known
      | keyFails known' key' =>
          obtain rfl := Option.some.inj (known.symm.trans known')
          obtain ⟨rfl, hResult⟩ := ihKey key'
          exact ⟨rfl, hResult⟩
      | map known' key' =>
          obtain rfl := Option.some.inj (known.symm.trans known')
          cases (ihKey key').2
  | map known _ _ ihKey ihValue =>
      intro depth' result' h'
      cases h' with
      | plain unknown => cases unknown.symm.trans known
      | keyFails known' key' =>
          obtain rfl := Option.some.inj (known.symm.trans known')
          cases (ihKey key').2
      | map known' key' value' =>
          obtain rfl := Option.some.inj (known.symm.trans known')
          obtain ⟨rfl, hKey⟩ := ihKey key'
          obtain ⟨rfl, rfl⟩ := ihValue value'
          obtain rfl := Except.ok.inj hKey
          exact ⟨rfl, rfl⟩

/-- One step of the bounded recursion through a map entry. -/
theorem valueTypeWithin_map {entry : MapEntry} (known : scope.mapOf? f = some entry)
    (steps : Nat) : scope.valueTypeWithin (steps + 1) f =
      scope.valueTypeWithin steps entry.key >>= fun keyType =>
        (scope.valueTypeWithin steps entry.value).map fun valueType =>
          .reference "Map" [keyType, valueType] := by
  rw [Scope.valueTypeWithin, known]
  rfl

/-- **With one step more than types nest, the bounded recursion is the unbounded one.** -/
theorem exists_computes {n : Nat} : ∀ {steps : Nat} {f : FieldDescriptor},
    scope.registry.NestsWithin n f → n < steps →
      ∃ depth ≤ n + 1, scope.Computes f depth (scope.valueTypeWithin steps f) := by
  induction n with
  | zero =>
      intro steps f within hSteps
      obtain ⟨steps, rfl⟩ := Nat.exists_eq_add_one_of_ne_zero (Nat.ne_zero_of_lt hSteps)
      cases hMap : scope.mapOf? f with
      | none =>
          rw [Scope.valueTypeWithin, hMap]
          exact ⟨1, Nat.le_refl 1, .plain hMap⟩
      | some entry => exact absurd (Registry.needs_key hMap) within.not_needs
  | succ n ih =>
      intro steps f within hSteps
      obtain ⟨steps, rfl⟩ := Nat.exists_eq_add_one_of_ne_zero (Nat.ne_zero_of_lt hSteps)
      cases hMap : scope.mapOf? f with
      | none =>
          rw [Scope.valueTypeWithin, hMap]
          exact ⟨1, by omega, .plain hMap⟩
      | some entry =>
          have hFewer : n < steps := Nat.lt_of_succ_lt_succ hSteps
          obtain ⟨keyDepth, hKeyDepth, hKey⟩ :=
            ih (within.of_needs (Registry.needs_key hMap)) hFewer
          obtain ⟨depth, hDepth, hValue⟩ :=
            ih (within.of_needs (Registry.needs_value hMap)) hFewer
          rw [valueTypeWithin_map hMap]
          cases hKeyType : scope.valueTypeWithin steps entry.key with
          | error failure =>
              rw [hKeyType] at hKey
              exact ⟨keyDepth + 1, by omega, .keyFails hMap hKey⟩
          | ok keyType =>
              rw [hKeyType] at hKey
              exact ⟨max keyDepth depth + 1, by omega, .map hMap hKey hValue⟩

/-! ## Failures -/

/-- A field that is no map has no type exactly when it is a group that is not asked for as a
string. -/
theorem plainType_error_iff {failure : Failure} :
    scope.plainType f = .error failure ↔
      f.type = .group ∧ f.jsString = false ∧ failure = .groupField f.name := by
  rw [Scope.plainType]
  cases hString : f.jsString <;> cases hType : f.type <;> simp [eq_comm]

/-- The recursion fails at a field that it needs and that has no type. -/
theorem untypable_of_computes (h : scope.Computes f depth result) {failure : Failure}
    (hFails : result = .error failure) :
    ∃ g, Relation.ReflTransGen scope.registry.Needs f g ∧ scope.registry.Untypable g := by
  induction h with
  | @plain f unknown =>
      obtain ⟨hGroup, hString, -⟩ := plainType_error_iff.1 hFails
      exact ⟨f, .refl, unknown, hGroup, hString⟩
  | keyFails known _ ih =>
      obtain ⟨g, hReach, hg⟩ := ih hFails
      exact ⟨g, .head (Registry.needs_key known) hReach, hg⟩
  | @map _ _ _ _ _ result known _ _ _ ih =>
      cases result with
      | ok type => cases hFails
      | error failure' =>
          obtain ⟨g, hReach, hg⟩ := ih hFails
          exact ⟨g, .head (Registry.needs_value known) hReach, hg⟩

/-- Where the recursion finds a type, it has found one for everything that is needed. -/
theorem not_untypable_of_computes (h : scope.Computes f depth result) {type : Ty}
    (hType : result = .ok type) {g : FieldDescriptor}
    (hReach : Relation.ReflTransGen scope.registry.Needs f g) : ¬ scope.registry.Untypable g := by
  induction h generalizing type with
  | plain unknown =>
      rcases hReach.cases_head with rfl | ⟨next, hNeeds, -⟩
      · rintro ⟨-, hGroup, hString⟩
        rw [plainType_error_iff.2 ⟨hGroup, hString, rfl⟩] at hType
        cases hType
      · exact absurd hNeeds (Registry.not_needs unknown)
  | keyFails => cases hType
  | @map _ _ _ _ _ result known _ _ ihKey ihValue =>
      rcases hReach.cases_head with rfl | ⟨next, ⟨entry', known', hSide⟩, hReach⟩
      · rintro ⟨unknown, -⟩
        cases unknown.symm.trans known
      · obtain rfl := Option.some.inj (known.symm.trans known')
        cases result with
        | error failure => cases hType
        | ok valueType =>
            rcases hSide with rfl | rfl
            · exact ihKey rfl hReach
            · exact ihValue rfl hReach

end Recursion

/-- **Finding the type of a value ends.** Where no map entry reaches itself through the types of
keys and values, the recursion has exactly one outcome, the result of `Scope.valueType`, and nests
no deeper than one more than the number of map entries. It fails exactly when it comes to a field
that is not typed by a map entry, is a group and is not asked for as a string. -/
theorem valueType_ends {scope : Scope} (acyclic : scope.registry.Acyclic) (f : FieldDescriptor) :
    (∃ depth ≤ scope.registry.mapEntries.size + 1, ∀ depth' result,
      scope.Computes f depth' result ↔ depth' = depth ∧ result = scope.valueType f) ∧
    ((∃ failure, scope.valueType f = .error failure) ↔
      ∃ g, Relation.ReflTransGen scope.registry.Needs f g ∧ scope.registry.Untypable g) := by
  obtain ⟨depth, hDepth, hComputes⟩ : ∃ depth ≤ scope.registry.mapEntries.size + 1,
      scope.Computes f depth (scope.valueType f) :=
    exists_computes (Registry.nestsWithin_size acyclic f) (Nat.lt_succ_self _)
  constructor
  · refine ⟨depth, hDepth, fun depth' result => ⟨hComputes.unique, ?_⟩⟩
    rintro ⟨rfl, rfl⟩
    exact hComputes
  · constructor
    · rintro ⟨failure, hFails⟩
      exact untypable_of_computes hComputes hFails
    · rintro ⟨g, hReach, hg⟩
      cases hType : scope.valueType f with
      | error failure => exact ⟨failure, rfl⟩
      | ok type => exact absurd hg (not_untypable_of_computes hComputes hType hReach)

/-- A field with the type of a code and, for a map, the name of its entries. -/
def mapPart (code : Int) (typeName? : Option String) : FieldDescriptor :=
  ⟨some "part", some 1, .optional, some code, typeName?, "", none, false, false, false⟩

/-- Maps from numbers to maps from strings to groups. -/
def nestedMaps : Registry :=
  (Registry.empty.declareMap ".Outer" ⟨mapPart 5 none, mapPart 11 (some ".Inner")⟩).declareMap
    ".Inner" ⟨mapPart 9 none, mapPart 10 none⟩

def nestedMapsScope : Scope := .ofFile nestedMaps .blank

theorem mapOf?_nestedMaps (typeName : String) : nestedMaps.mapOf? typeName =
    if ".Inner" = typeName then some ⟨mapPart 9 none, mapPart 10 none⟩
    else if ".Outer" = typeName then some ⟨mapPart 5 none, mapPart 11 (some ".Inner")⟩
    else none := by
  rw [nestedMaps, Registry.mapOf?_declareMap, Registry.mapOf?_declareMap, Registry.mapOf?_empty]

theorem acyclic_nestedMaps : nestedMaps.Acyclic := by
  have hLeads : ∀ {a b}, nestedMaps.Leads a b → a = ".Outer" ∧ b = ".Inner" := by
    rintro a b ⟨entry, hEntry, hSide⟩
    rw [mapOf?_nestedMaps] at hEntry
    split_ifs at hEntry with hInner hOuter
    · cases hEntry
      rcases hSide with hSide | hSide <;> cases hSide
    · cases hEntry
      rcases hSide with hSide | hSide <;> cases hSide
      exact ⟨hOuter.symm, rfl⟩
  -- the entries have the inner map as their value, and the inner map leads nowhere
  have hReaches : ∀ {a b}, Relation.TransGen nestedMaps.Leads a b →
      a = ".Outer" ∧ b = ".Inner" := by
    intro a b h
    induction h with
    | single h => exact hLeads h
    | tail _ h ih => exact absurd ((hLeads h).1.symm.trans ih.2) (by decide)
  intro typeName h
  exact absurd ((hReaches h).1.symm.trans (hReaches h).2) (by decide)

theorem valueType_ends_nestedMaps :
    nestedMapsScope.registry.Acyclic ∧
    (∃ depth ≤ 3, ∀ depth' result,
      nestedMapsScope.Computes (mapPart 11 (some ".Outer")) depth' result ↔
        depth' = depth ∧ result = .error (.groupField "part")) ∧
    ∃ failure, nestedMapsScope.valueType (mapPart 11 (some ".Outer")) = .error failure := by
  have hOuter : nestedMaps.entryOf? (mapPart 11 (some ".Outer")) =
      some ⟨mapPart 5 none, mapPart 11 (some ".Inner")⟩ := mapOf?_nestedMaps ".Outer"
  have hInner : nestedMaps.entryOf? (mapPart 11 (some ".Inner")) =
      some ⟨mapPart 9 none, mapPart 10 none⟩ := mapOf?_nestedMaps ".Inner"
  have hAcyclic : nestedMapsScope.registry.Acyclic := acyclic_nestedMaps
  obtain ⟨hEnds, hFails⟩ := valueType_ends hAcyclic (mapPart 11 (some ".Outer"))
  refine ⟨hAcyclic, hEnds, hFails.2 ⟨mapPart 10 none, ?_, rfl, rfl, rfl⟩⟩
  exact .head (Registry.needs_value hOuter) (.single (Registry.needs_value hInner))

end Protoscribe

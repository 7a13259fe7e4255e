import Mathlib.Data.List.Basic
import Protoscribe.TypeScript.Ty.Basic

set_option autoImplicit false

/-! # Flat types

A union directly inside a union brings its members into it, and a union with one member is this
member; the same holds of intersections. A type is `Flat` when there is nothing left of this kind.
Main statements: `flat_flattened` and `flattened_eq_iff`, every type has a flat form, and the flat
types are those that are their own.
-/

namespace Protoscribe.TypeScript

/-- The two ways of joining types. -/
inductive Join where
  | union
  | intersection

namespace Join

/-- Several types joined, as they are. -/
def type : Join → List Ty → Ty
  | .union, members => .union members
  | .intersection, members => .intersection members

/-- What a type brings into a join: its members if it is such a join itself. -/
def members : Join → Ty → List Ty
  | .union, .union members => members
  | .intersection, .intersection members => members
  | _, type => [type]

/-- Several types joined; one type alone is not joined with anything. -/
def joined (join : Join) : List Ty → Ty
  | [member] => member
  | members => join.type members

end Join

namespace Ty

mutual

/-- The flat form of a type. -/
def flattened : Ty → Ty
  | .reference name arguments => .reference name (allFlattened arguments)
  | .array element => .array element.flattened
  | .union members => Join.union.joined ((allFlattened members).flatMap Join.union.members)
  | .intersection members =>
    Join.intersection.joined ((allFlattened members).flatMap Join.intersection.members)
  | .record properties index => .record (propertiesFlattened properties) (indexFlattened index)
  | .literal value => .literal value
  | .query path => .query path

def allFlattened : List Ty → List Ty
  | [] => []
  | type :: rest => type.flattened :: allFlattened rest

def propertiesFlattened : List (PropertyType Ty) → List (PropertyType Ty)
  | [] => []
  | ⟨name, optional, type⟩ :: rest =>
    ⟨name, optional, type.flattened⟩ :: propertiesFlattened rest

def indexFlattened : Option (IndexType Ty) → Option (IndexType Ty)
  | none => none
  | some ⟨parameter, key, value⟩ => some ⟨parameter, key.flattened, value.flattened⟩

end

/-- No join has a single member or a member that is a join of the same kind. -/
inductive Flat : Ty → Prop
  | reference {name : String} {arguments : List Ty} (h : ∀ t ∈ arguments, Flat t) :
      Flat (.reference name arguments)
  | array {element : Ty} (h : Flat element) : Flat (.array element)
  | join {kind : Join} {members : List Ty} (hMany : members.length ≠ 1)
      (h : ∀ t ∈ members, Flat t) (hOther : ∀ t ∈ members, kind.members t = [t]) :
      Flat (kind.type members)
  | record {properties : List (PropertyType Ty)} {index : Option (IndexType Ty)}
      (h : ∀ p ∈ properties, Flat p.type) (hKey : ∀ s ∈ index, Flat s.key)
      (hValue : ∀ s ∈ index, Flat s.value) : Flat (.record properties index)
  | literal (value : String) : Flat (.literal value)
  | query (path : String) : Flat (.query path)

end Ty

/-! ## Joins and their members -/

namespace Join

variable {kind : Join} {members : List Ty} {t : Ty}

@[simp] theorem members_type : kind.members (kind.type members) = members := by
  cases kind <;> rfl

/-- A type that is no join of the kind is brought in whole. -/
theorem type_or_members (kind : Join) (t : Ty) :
    (∃ members, t = kind.type members) ∨ kind.members t = [t] := by
  cases kind with
  | union =>
      cases t with
      | union members => exact .inl ⟨members, rfl⟩
      | _ => exact .inr rfl
  | intersection =>
      cases t with
      | intersection members => exact .inl ⟨members, rfl⟩
      | _ => exact .inr rfl

theorem joined_of_length (h : members.length ≠ 1) : kind.joined members = kind.type members := by
  unfold joined
  split
  · exact absurd rfl h
  · rfl

theorem joined_cases (kind : Join) (members : List Ty) :
    (∃ t, members = [t] ∧ kind.joined members = t) ∨
      (members.length ≠ 1 ∧ kind.joined members = kind.type members) := by
  by_cases h : members.length = 1
  · obtain ⟨t, rfl⟩ := List.length_eq_one_iff.1 h
    exact .inl ⟨t, rfl, rfl⟩
  · exact .inr ⟨h, joined_of_length h⟩

theorem members_joined (h : ∀ t ∈ members, kind.members t = [t]) :
    kind.members (kind.joined members) = members := by
  obtain ⟨t, rfl, hJoined⟩ | ⟨-, hJoined⟩ := joined_cases kind members
  · rw [hJoined, h t List.mem_cons_self]
  · rw [hJoined, members_type]

end Join

namespace Ty

open Join (members_type members_joined joined_cases joined_of_length)

theorem allFlattened_eq_map (types : List Ty) : allFlattened types = types.map flattened := by
  induction types with
  | nil => rfl
  | cons type rest ih => rw [allFlattened, ih, List.map_cons]

theorem flattened_type (kind : Join) (members : List Ty) :
    (kind.type members).flattened =
      kind.joined (members.flatMap fun t => kind.members t.flattened) := by
  cases kind <;> simp only [Join.type, flattened, allFlattened_eq_map, List.flatMap_map]

/-! ## Flat types -/

namespace Flat

variable {kind : Join} {members : List Ty} {t : Ty}

/-- A join is told by its members and its kind. -/
theorem of_type (h : Flat (kind.type members)) :
    members.length ≠ 1 ∧ (∀ t ∈ members, Flat t) ∧ ∀ t ∈ members, kind.members t = [t] := by
  generalize hType : kind.type members = type at h
  cases h with
  | @join other others hMany h hOther =>
      obtain ⟨rfl, rfl⟩ : kind = other ∧ members = others := by
        cases kind <;> cases other <;> simp_all [Join.type]
      exact ⟨hMany, h, hOther⟩
  | _ => cases kind <;> cases hType

/-- **A flat type is what its members are joined.** -/
theorem joined_members (kind : Join) (h : Flat t) : kind.joined (kind.members t) = t := by
  obtain ⟨members, rfl⟩ | hWhole := kind.type_or_members t
  · rw [members_type, joined_of_length h.of_type.1]
  · rw [hWhole]
    rfl

theorem of_mem_members (h : Flat t) :
    ∀ member ∈ kind.members t, Flat member ∧ kind.members member = [member] := by
  obtain ⟨members, rfl⟩ | hWhole := kind.type_or_members t
  · obtain ⟨-, hFlat, hOther⟩ := h.of_type
    rw [members_type]
    exact fun member hMem => ⟨hFlat member hMem, hOther member hMem⟩
  · rw [hWhole]
    intro member hMem
    obtain rfl := List.mem_singleton.1 hMem
    exact ⟨h, hWhole⟩

theorem joined {members : List Ty} (h : ∀ t ∈ members, Flat t ∧ kind.members t = [t]) :
    Flat (kind.joined members) := by
  obtain ⟨t, rfl, hJoined⟩ | ⟨hMany, hJoined⟩ := joined_cases kind members
  · rw [hJoined]
    exact (h t List.mem_cons_self).1
  · rw [hJoined]
    exact .join hMany (fun t ht => (h t ht).1) fun t ht => (h t ht).2

/-- A flat form of each member gives the flat form of the join. -/
theorem joined_flatMap (kind : Join) {members : List Ty} (h : ∀ t ∈ members, t.flattened.Flat) :
    Flat (kind.joined (members.flatMap fun t => kind.members t.flattened)) := by
  refine .joined fun part hPart => ?_
  obtain ⟨t, ht, hMem⟩ := List.mem_flatMap.1 hPart
  exact (h t ht).of_mem_members part hMem

end Flat

mutual

/-- **The flat form of a type is flat.** -/
theorem flat_flattened : (t : Ty) → t.flattened.Flat
  | .reference _ arguments => by
      rw [flattened, allFlattened_eq_map]
      exact .reference (List.forall_mem_map.2 (flat_allFlattened arguments))
  | .array element => .array (flat_flattened element)
  | .union members => by
      have hFlat := Flat.joined_flatMap .union (flat_allFlattened members)
      rwa [← flattened_type] at hFlat
  | .intersection members => by
      have hFlat := Flat.joined_flatMap .intersection (flat_allFlattened members)
      rwa [← flattened_type] at hFlat
  | .record properties none =>
      .record (flat_propertiesFlattened properties) (fun _ h => by cases h) fun _ h => by cases h
  | .record properties (some ⟨_, key, value⟩) => by
      refine .record (flat_propertiesFlattened properties) ?_ ?_
      · rintro _ ⟨⟩
        exact flat_flattened key
      · rintro _ ⟨⟩
        exact flat_flattened value
  | .literal value => .literal value
  | .query path => .query path

theorem flat_allFlattened : (types : List Ty) → ∀ t ∈ types, t.flattened.Flat
  | [] => fun _ h => absurd h List.not_mem_nil
  | t :: rest => List.forall_mem_cons.2 ⟨flat_flattened t, flat_allFlattened rest⟩

theorem flat_propertiesFlattened :
    (properties : List (PropertyType Ty)) → ∀ p ∈ propertiesFlattened properties, p.type.Flat
  | [] => fun _ h => absurd h List.not_mem_nil
  | ⟨_, _, type⟩ :: rest =>
      List.forall_mem_cons.2 ⟨flat_flattened type, flat_propertiesFlattened rest⟩

end

/-- Types that are brought in whole, and are their own flat forms, are joined as they are. -/
theorem flatMap_members {kind : Join} {members : List Ty}
    (hSame : ∀ t ∈ members, t.flattened = t) (hOther : ∀ t ∈ members, kind.members t = [t]) :
    (members.flatMap fun t => kind.members t.flattened) = members := by
  have hWhole : ∀ t ∈ members, kind.members t.flattened = [t] := fun t ht => by
    rw [hSame t ht, hOther t ht]
  rw [List.flatMap_congr hWhole, List.flatMap_singleton']

theorem propertiesFlattened_eq_self {properties : List (PropertyType Ty)}
    (h : ∀ p ∈ properties, p.type.flattened = p.type) :
    propertiesFlattened properties = properties := by
  induction properties with
  | nil => rfl
  | cons property rest ih =>
      obtain ⟨hFirst, hRest⟩ := List.forall_mem_cons.1 h
      rw [propertiesFlattened, hFirst, ih hRest]

theorem Flat.flattened_eq {t : Ty} (h : t.Flat) : t.flattened = t := by
  induction h with
  | reference _ ih =>
      rw [flattened, allFlattened_eq_map, List.map_congr_left ih, List.map_id']
  | array _ ih => rw [flattened, ih]
  | join hMany _ hOther ih =>
      rw [flattened_type, flatMap_members ih hOther, joined_of_length hMany]
  | @record properties index _ _ _ ih ihKey ihValue =>
      have hIndex : indexFlattened index = index := by
        cases index with
        | none => rfl
        | some signature => rw [indexFlattened, ihKey signature rfl, ihValue signature rfl]
      rw [flattened, propertiesFlattened_eq_self ih, hIndex]
  | literal => rfl
  | query => rfl

/-- **The flat types are those that flattening leaves alone.** -/
theorem flattened_eq_iff {t : Ty} : t.flattened = t ↔ t.Flat :=
  ⟨fun hSame => hSame ▸ flat_flattened t, Flat.flattened_eq⟩

/-- An intersection of one union is this union, and so its members go into the union around it. -/
example : (Ty.union [.named "A", .intersection [.union [.named "B", .named "C"]]]).flattened =
    .union [.named "A", .named "B", .named "C"] := rfl

/-- What a join brings into a join of its kind is what its members bring in. -/
theorem members_flattened_type (kind : Join) (members : List Ty) :
    kind.members (kind.type members).flattened =
      members.flatMap fun t => kind.members t.flattened := by
  rw [flattened_type]
  refine members_joined fun part hPart => ?_
  obtain ⟨t, -, hMem⟩ := List.mem_flatMap.1 hPart
  exact ((flat_flattened t).of_mem_members part hMem).2

/-- **A join is told by what its members bring into it.** Types that bring in the members of a flat
type are joined to this type. -/
theorem flattened_joined {kind : Join} {found : List Ty} {t : Ty} (h : t.Flat)
    (hMembers : (found.flatMap fun t => kind.members t.flattened) = kind.members t) :
    (kind.joined found).flattened = t := by
  obtain ⟨single, rfl, hJoined⟩ | ⟨-, hJoined⟩ := joined_cases kind found
  · rw [List.flatMap_singleton] at hMembers
    rw [hJoined, ← (flat_flattened single).joined_members kind, hMembers, h.joined_members]
  · rw [hJoined, flattened_type, hMembers, h.joined_members]

end Ty

end Protoscribe.TypeScript

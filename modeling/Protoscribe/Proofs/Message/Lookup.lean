import Mathlib.Data.List.Nodup
import Protoscribe.Message.Emission
import Protoscribe.Proofs.Checked
import Protoscribe.Proofs.Registry.Declarations

set_option autoImplicit false

/-! # Finding a declaration in the emitted namespaces

A dotted path is followed through nested namespaces to a class or an enum (`lookup`). Main
statement: `finds_messageDecls`, in what is emitted for a message, the path of every type declared
there leads to the class or the enum emitted for that type. The names on one level have to be
distinct; without that the first declaration of a name would hide the others.
-/

namespace Protoscribe

open TypeScript Checked

/-! ## Following a path -/

namespace TypeScript

/-- Whether a declaration is a class, an enum or an interface of the given name. -/
def Decl.isLeaf (name : String) : Decl → Bool
  | .enumeration decl => decl.name = name
  | .classDecl decl => decl.name = name
  | .callable decl => decl.name = name
  | .nspace .. => false

/-- The declarations in a namespace of the given name. -/
def Decl.body? (name : String) : Decl → Option (List Decl)
  | .nspace other body => if other = name then some body else none
  | _ => none

/-- The declaration at the end of a path: through namespaces, the first declaration that is no
namespace. -/
def lookup : List String → List Decl → Option Decl
  | [], _ => none
  | [name], decls => decls.find? (Decl.isLeaf name)
  | name :: next :: rest, decls =>
    decls.findSome? fun d => (d.body? name).bind (lookup (next :: rest))

theorem lookup_append (path : List String) (a b : List Decl) :
    lookup path (a ++ b) = (lookup path a).or (lookup path b) := by
  match path with
  | [] => rfl
  | [name] => rw [lookup, lookup, lookup, List.find?_append]
  | name :: next :: rest => rw [lookup, lookup, lookup, List.findSome?_append]

/-- A path is not found where nothing has its first name. -/
theorem lookup_eq_none {name : String} {rest : List String} {decls : List Decl}
    (h : ∀ d ∈ decls, d.name ≠ name) : lookup (name :: rest) decls = none := by
  cases rest with
  | nil =>
      rw [lookup, List.find?_eq_none]
      intro d hd
      have hName := h d hd
      cases d <;> simp_all [Decl.isLeaf, Decl.name]
  | cons next rest =>
      rw [lookup, List.findSome?_eq_none_iff]
      intro d hd
      have hName := h d hd
      cases d <;> simp_all [Decl.body?, Decl.name]

theorem lookup_namespace (name : String) {path : List String} (hPath : path ≠ [])
    (body : List Decl) : lookup (name :: path) [.nspace name body] = lookup path body := by
  obtain ⟨next, rest, rfl⟩ := List.exists_cons_of_ne_nil hPath
  simp [lookup, Decl.body?]

/-- A path through the namespaces of a package. -/
theorem lookup_nest {path : List String} (hPath : path ≠ []) (body : List Decl) :
    ∀ (outer : String) (inner : List String),
      lookup (outer :: (inner ++ path)) [Decl.nest outer inner body] = lookup path body
  | outer, [] => by rw [Decl.nest, List.nil_append, lookup_namespace outer hPath]
  | outer, next :: inner => by
      rw [Decl.nest, lookup_namespace outer (by simp), List.cons_append]
      exact lookup_nest hPath body next inner

end TypeScript

/-! ## Levels of declarations -/

/-- The declaration emitted for something declared. -/
def Scope.Emits (scope : Scope) : Declared → Decl → Prop
  | .enum e, decl => decl = e.decl
  | .message m, decl => ∃ plan, scope.plan m = .ok plan ∧ decl = plan.decl scope
  | .mapEntry _, _ => False

/-- The path of every declared type leads to what is emitted for the type. -/
def Scope.Finds (scope : Scope) (declared : List Declaration) (decls : List Decl) : Prop :=
  ∀ d ∈ declared, d.isType → ∃ decl, scope.Emits d.item decl ∧ lookup d.path decls = some decl

/-- No two declarations have the same path. -/
def DistinctPaths (declared : List Declaration) : Prop := (declared.map Declaration.path).Nodup

/-- Every declaration starts with a name that is declared itself. -/
def Rooted (declared : List Declaration) : Prop :=
  ∀ d ∈ declared, ∃ name rest, d.path = name :: rest ∧ [name] ∈ declared.map Declaration.path

/-- Every emitted declaration has a name that is declared. -/
def NamesDeclared (declared : List Declaration) (decls : List Decl) : Prop :=
  ∀ decl ∈ decls, [decl.name] ∈ declared.map Declaration.path

theorem rooted_append {ds es : List Declaration} (hd : Rooted ds) (he : Rooted es) :
    Rooted (ds ++ es) := by
  intro d h
  rw [List.map_append]
  rcases List.mem_append.1 h with h | h
  · obtain ⟨name, rest, hPath, hName⟩ := hd d h
    exact ⟨name, rest, hPath, List.mem_append_left _ hName⟩
  · obtain ⟨name, rest, hPath, hName⟩ := he d h
    exact ⟨name, rest, hPath, List.mem_append_right _ hName⟩

theorem namesDeclared_append {ds es : List Declaration} {a b : List Decl}
    (ha : NamesDeclared ds a) (hb : NamesDeclared es b) : NamesDeclared (ds ++ es) (a ++ b) := by
  intro decl h
  rw [List.map_append]
  rcases List.mem_append.1 h with h | h
  · exact List.mem_append_left _ (ha decl h)
  · exact List.mem_append_right _ (hb decl h)

theorem distinctPaths_append {ds es : List Declaration} :
    DistinctPaths (ds ++ es) ↔ DistinctPaths ds ∧ DistinctPaths es ∧
      (ds.map Declaration.path).Disjoint (es.map Declaration.path) := by
  rw [DistinctPaths, List.map_append, List.nodup_append']
  rfl

/-- Two groups of declarations side by side; distinct paths keep one from hiding the other. -/
theorem Scope.Finds.append {scope : Scope} {ds es : List Declaration} {a b : List Decl}
    (hd : scope.Finds ds a) (he : scope.Finds es b) (hNames : NamesDeclared ds a)
    (hRooted : Rooted es) (hDistinct : DistinctPaths (ds ++ es)) :
    scope.Finds (ds ++ es) (a ++ b) := by
  intro d h hType
  obtain ⟨-, -, hApart⟩ := distinctPaths_append.1 hDistinct
  rcases List.mem_append.1 h with h | h
  · obtain ⟨decl, hEmits, hFound⟩ := hd d h hType
    exact ⟨decl, hEmits, by rw [lookup_append, hFound, Option.some_or]⟩
  · obtain ⟨decl, hEmits, hFound⟩ := he d h hType
    obtain ⟨name, rest, hPath, hName⟩ := hRooted d h
    have hHidden : lookup d.path a = none := by
      rw [hPath]
      refine lookup_eq_none fun other hOther hSame => ?_
      have hMem := hNames other hOther
      rw [hSame] at hMem
      exact hApart hMem hName
    exact ⟨decl, hEmits, by rw [lookup_append, hHidden, Option.none_or, hFound]⟩

theorem Scope.Finds.append_right {scope : Scope} {ds : List Declaration} {a : List Decl}
    (hd : scope.Finds ds a) (b : List Decl) : scope.Finds ds (a ++ b) := by
  intro d h hType
  obtain ⟨decl, hEmits, hFound⟩ := hd d h hType
  exact ⟨decl, hEmits, by rw [lookup_append, hFound, Option.some_or]⟩

theorem distinctPaths_under {outer : String} {ds : List Declaration} :
    DistinctPaths (ds.map (·.under outer)) ↔ DistinctPaths ds := by
  rw [DistinctPaths, DistinctPaths, List.map_map,
    show Declaration.path ∘ (Declaration.under outer) = (outer :: ·) ∘ Declaration.path from rfl,
    ← List.map_map]
  exact List.nodup_map_iff fun _ _ h => List.tail_eq_of_cons_eq h

/-! ## Enums and messages -/

theorem rooted_enums (enums : List EnumDescriptor) : Rooted (enumDeclarations enums) := by
  intro d h
  obtain ⟨e, he, rfl⟩ := List.mem_map.1 h
  exact ⟨e.name, [], rfl, List.mem_map.2 ⟨_, h, rfl⟩⟩

theorem namesDeclared_enums (enums : List EnumDescriptor) :
    NamesDeclared (enumDeclarations enums) (enums.map EnumDescriptor.decl) := by
  intro decl h
  obtain ⟨e, he, rfl⟩ := List.mem_map.1 h
  exact List.mem_map.2 ⟨⟨[e.name], .enum e⟩, List.mem_map.2 ⟨e, he, rfl⟩, rfl⟩

theorem finds_enums {scope : Scope} {enums : List EnumDescriptor}
    (hDistinct : DistinctPaths (enumDeclarations enums)) :
    scope.Finds (enumDeclarations enums) (enums.map EnumDescriptor.decl) := by
  induction enums with
  | nil => simp [Scope.Finds, enumDeclarations]
  | cons e enums ih =>
      have hRest : DistinctPaths (enumDeclarations enums) := (List.nodup_cons.1 hDistinct).2
      have hFirst : scope.Finds (enumDeclarations [e]) [e.decl] := by
        intro d h _
        obtain rfl : d = ⟨[e.name], .enum e⟩ := by simpa [enumDeclarations] using h
        exact ⟨e.decl, rfl, by simp [lookup, Decl.isLeaf, EnumDescriptor.decl]⟩
      exact hFirst.append (ih hRest) (namesDeclared_enums [e]) (rooted_enums enums) hDistinct

theorem self_mem_messageDeclarations (m : MessageDescriptor) :
    [m.name] ∈ (messageDeclarations m).map Declaration.path := by
  obtain ⟨name?, fields, nested, enums, oneofs, isMapEntry⟩ := m
  rw [messageDeclarations]
  split <;> simp [MessageDescriptor.name]

theorem rooted_message (m : MessageDescriptor) : Rooted (messageDeclarations m) := by
  have hSelf := self_mem_messageDeclarations m
  intro d h
  suffices ∃ rest, d.path = m.name :: rest by
    obtain ⟨rest, hPath⟩ := this
    exact ⟨m.name, rest, hPath, hSelf⟩
  obtain ⟨name?, fields, nested, enums, oneofs, isMapEntry⟩ := m
  rw [messageDeclarations] at h
  split at h
  · obtain rfl := List.mem_singleton.1 h
    exact ⟨[], rfl⟩
  · rcases List.mem_cons.1 h with rfl | h
    · exact ⟨[], rfl⟩
    · obtain ⟨inner, -, rfl⟩ := List.mem_map.1 h
      exact ⟨inner.path, rfl⟩

theorem rooted_messages (ms : List MessageDescriptor) : Rooted (messagesDeclarations ms) := by
  induction ms with
  | nil => simp [Rooted, messagesDeclarations]
  | cons m ms ih => exact rooted_append (rooted_message m) ih

theorem Scope.plan_name {scope : Scope} {m : MessageDescriptor} {plan : Plan}
    (h : scope.plan m = .ok plan) : plan.name = m.name := by
  rw [Scope.plan] at h
  cases hName : m.name? with
  | none => simp [hName] at h
  | some name =>
      rw [hName] at h
      obtain ⟨properties, -, h⟩ := bind_eq_ok.1 h
      obtain rfl := pure_eq_ok.1 h
      simp [MessageDescriptor.name, hName]

/-- What is emitted for a message: its class, and the namespace of what is declared in it. -/
theorem Scope.messageDecls_eq_ok {scope : Scope} {m : MessageDescriptor} {decls : List Decl} :
    scope.messageDecls m = .ok decls ↔ ∃ plan inner, scope.plan m = .ok plan ∧
      scope.nestedDecls m.nested = .ok inner ∧
      decls = plan.decl scope :: innerDecls m.name (m.enums.map EnumDescriptor.decl ++ inner) := by
  obtain ⟨name?, fields, nested, enums, oneofs, isMapEntry⟩ := m
  rw [Scope.messageDecls]
  simp only [bind_eq_ok, pure_eq_ok]
  constructor
  · rintro ⟨plan, hPlan, inner, hInner, rfl⟩
    exact ⟨plan, inner, hPlan, hInner, by rw [Scope.plan_name hPlan]⟩
  · rintro ⟨plan, inner, hPlan, hInner, rfl⟩
    exact ⟨plan, hPlan, inner, hInner, by rw [Scope.plan_name hPlan]⟩

/-- What is emitted for the messages declared in a message: the declarations of each of them, map
entries left out. -/
theorem Scope.nestedDecls_eq_ok {scope : Scope} {ms : List MessageDescriptor} {decls : List Decl} :
    scope.nestedDecls ms = .ok decls ↔ ∃ groups,
      (ms.filter (!·.isMapEntry)).mapM scope.messageDecls = .ok groups ∧ groups.flatten = decls := by
  induction ms generalizing decls with
  | nil =>
      rw [Scope.nestedDecls, List.filter_nil, List.mapM_nil]
      simp
  | cons m rest ih =>
      rw [Scope.nestedDecls]
      by_cases hEntry : m.isMapEntry
      · rw [if_pos hEntry, ih, List.filter_cons_of_neg (by simpa using hEntry)]
      · rw [if_neg hEntry, List.filter_cons_of_pos (by simpa using hEntry), List.mapM_cons]
        simp only [bind_eq_ok, pure_eq_ok, ih]
        constructor
        · rintro ⟨first, hFirst, others, ⟨groups, hGroups, rfl⟩, rfl⟩
          exact ⟨first :: groups, ⟨first, hFirst, groups, hGroups, rfl⟩, List.flatten_cons⟩
        · rintro ⟨_, ⟨first, hFirst, groups, hGroups, rfl⟩, rfl⟩
          exact ⟨first, hFirst, groups.flatten, ⟨groups, hGroups, rfl⟩, List.flatten_cons.symm⟩

theorem namesDeclared_message {scope : Scope} {m : MessageDescriptor} {decls : List Decl}
    (h : scope.messageDecls m = .ok decls) : NamesDeclared (messageDeclarations m) decls := by
  obtain ⟨plan, inner, hPlan, -, rfl⟩ := Scope.messageDecls_eq_ok.1 h
  intro decl hMem
  suffices decl.name = m.name by
    rw [this]
    exact self_mem_messageDeclarations m
  rcases List.mem_cons.1 hMem with rfl | hMem
  · exact Scope.plan_name hPlan
  · generalize m.enums.map EnumDescriptor.decl ++ inner = body at hMem
    cases body with
    | nil => cases hMem
    | cons first others =>
        obtain rfl := List.mem_singleton.1 hMem
        rfl

theorem namesDeclared_nested {scope : Scope} : ∀ {ms : List MessageDescriptor} {decls : List Decl},
    scope.nestedDecls ms = .ok decls → NamesDeclared (messagesDeclarations ms) decls
  | [], decls, h => by
      obtain rfl := pure_eq_ok.1 h
      simp [NamesDeclared]
  | m :: rest, decls, h => by
      rw [Scope.nestedDecls] at h
      split at h
      · have hNone : NamesDeclared (messageDeclarations m) [] := by simp [NamesDeclared]
        exact namesDeclared_append hNone (namesDeclared_nested h)
      · obtain ⟨first, hFirst, h⟩ := bind_eq_ok.1 h
        obtain ⟨others, hOthers, h⟩ := bind_eq_ok.1 h
        obtain rfl := pure_eq_ok.1 h
        exact namesDeclared_append (namesDeclared_message hFirst) (namesDeclared_nested hOthers)

theorem finds_mapEntry {scope : Scope} {m : MessageDescriptor} (h : m.isMapEntry)
    (decls : List Decl) : scope.Finds (messageDeclarations m) decls := by
  intro d hd hType
  obtain ⟨name?, fields, nested, enums, oneofs, isMapEntry⟩ := m
  rw [messageDeclarations, if_pos (by exact h)] at hd
  obtain rfl := List.mem_singleton.1 hd
  cases hType

mutual

/-- **Every type declared in a message is found in what is emitted for the message.** -/
theorem finds_messageDecls {scope : Scope} : ∀ (m : MessageDescriptor) {decls : List Decl},
    scope.messageDecls m = .ok decls → DistinctPaths (messageDeclarations m) →
      scope.Finds (messageDeclarations m) decls
  | ⟨name?, fields, nested, enums, oneofs, isMapEntry⟩, decls, h, hDistinct => by
      by_cases hEntry : isMapEntry
      · exact finds_mapEntry hEntry decls
      obtain ⟨plan, inner, hPlan, hInner, rfl⟩ := Scope.messageDecls_eq_ok.1 h
      rw [messageDeclarations, if_neg hEntry] at hDistinct ⊢
      have hLevel : DistinctPaths (enumDeclarations enums ++ messagesDeclarations nested) :=
        distinctPaths_under.1 (List.nodup_cons.1 hDistinct).2
      obtain ⟨hEnums, hNested, -⟩ := distinctPaths_append.1 hLevel
      have hBody : scope.Finds (enumDeclarations enums ++ messagesDeclarations nested)
          (enums.map EnumDescriptor.decl ++ inner) :=
        (finds_enums hEnums).append (finds_nestedDecls nested hInner hNested)
          (namesDeclared_enums enums) (rooted_messages nested) hLevel
      intro d hd hType
      rcases List.mem_cons.1 hd with rfl | hd
      · have hName : plan.name = name?.getD "" := Scope.plan_name hPlan
        exact ⟨plan.decl scope, ⟨plan, hPlan, rfl⟩, by
          simp [lookup, Decl.isLeaf, Plan.decl, hName]⟩
      · -- inside the namespace of the message
        obtain ⟨within, hWithin, rfl⟩ := List.mem_map.1 hd
        obtain ⟨decl, hEmits, hFound⟩ := hBody within hWithin hType
        refine ⟨decl, hEmits, ?_⟩
        obtain ⟨name, rest, hPath, -⟩ :=
          rooted_append (rooted_enums enums) (rooted_messages nested) within hWithin
        have hPath : within.path ≠ [] := by simp [hPath]
        have hClass : lookup (name?.getD "" :: within.path) [plan.decl scope] = none := by
          obtain ⟨next, rest, hCons⟩ := List.exists_cons_of_ne_nil hPath
          simp [hCons, lookup, Decl.body?, Plan.decl]
        have hInnerDecls : innerDecls (name?.getD "") (enums.map EnumDescriptor.decl ++ inner) =
            [.nspace (name?.getD "") (enums.map EnumDescriptor.decl ++ inner)] := by
          generalize enums.map EnumDescriptor.decl ++ inner = body at hFound
          cases body with
          | nil =>
              obtain ⟨next, rest, hCons⟩ := List.exists_cons_of_ne_nil hPath
              cases rest <;> simp [hCons, lookup] at hFound
          | cons first others => rfl
        show lookup (name?.getD "" :: within.path)
          ([plan.decl scope] ++ innerDecls (name?.getD "")
            (enums.map EnumDescriptor.decl ++ inner)) = some decl
        rw [lookup_append, hClass, Option.none_or, hInnerDecls, lookup_namespace _ hPath, hFound]

theorem finds_nestedDecls {scope : Scope} : ∀ (ms : List MessageDescriptor) {decls : List Decl},
    scope.nestedDecls ms = .ok decls → DistinctPaths (messagesDeclarations ms) →
      scope.Finds (messagesDeclarations ms) decls
  | [], decls, _, _ => by simp [Scope.Finds, messagesDeclarations]
  | m :: rest, decls, h, hDistinct => by
      rw [messagesDeclarations] at hDistinct ⊢
      obtain ⟨hFirst, hRest, -⟩ := distinctPaths_append.1 hDistinct
      rw [Scope.nestedDecls] at h
      split at h
      · rename_i hEntry
        have hNone : NamesDeclared (messageDeclarations m) [] := by simp [NamesDeclared]
        exact (finds_mapEntry hEntry []).append (finds_nestedDecls rest h hRest) hNone
          (rooted_messages rest) hDistinct
      · obtain ⟨first, hFirstDecls, h⟩ := bind_eq_ok.1 h
        obtain ⟨others, hOthers, h⟩ := bind_eq_ok.1 h
        obtain rfl := pure_eq_ok.1 h
        exact (finds_messageDecls m hFirstDecls hFirst).append
          (finds_nestedDecls rest hOthers hRest) (namesDeclared_message hFirstDecls)
          (rooted_messages rest) hDistinct

end

end Protoscribe

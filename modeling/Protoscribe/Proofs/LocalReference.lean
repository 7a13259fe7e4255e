import Mathlib.Data.List.Infix
import Protoscribe.Proofs.Linking

set_option autoImplicit false

/-! # References to types of the same file

A type of the current file is referred to by its path inside the package. The reference stands in
a class, and the class stands in the namespaces of the messages around it; each of these
namespaces is asked for the first name of the path before the package is. Main statement:
`local_reference_iff`, the reference reaches the type unless one of these messages declares an enum
or a message of that first name. `local_reference_hidden` is a file in which this happens.
-/

namespace Protoscribe

open TypeScript Checked

/-! ## Looking outward -/

namespace TypeScript

/-- What the namespaces of a name declare. -/
def inside (name : String) (decls : List Decl) : List Decl :=
  decls.flatMap fun d => (d.body? name).getD []

/-- What is declared at the end of a chain of namespaces. -/
def within : List String → List Decl → List Decl
  | [], decls => decls
  | name :: rest, decls => within rest (inside name decls)

/-- Whether something of the given name is declared. -/
def declares (decls : List Decl) (name : String) : Bool :=
  decls.any (·.name = name)

/-- The declaration that a dotted path names when it is written in a chain of namespaces, and the
place of that declaration. The innermost namespace that declares the first name of the path
decides. -/
def refer (decls : List Decl) (around : List String) :
    List String → Option (List String × Decl)
  | [] => none
  | first :: rest =>
    (around.inits.reverse.find? fun place => declares (within place decls) first).bind
      fun place => (lookup (first :: rest) (within place decls)).map fun decl =>
        (place ++ first :: rest, decl)

theorem declares_iff {decls : List Decl} {name : String} :
    declares decls name ↔ ∃ d ∈ decls, d.name = name := by
  simp [declares]

theorem inside_append (name : String) (a b : List Decl) :
    inside name (a ++ b) = inside name a ++ inside name b := List.flatMap_append

@[simp] theorem within_nil (path : List String) : within path [] = [] := by
  induction path with
  | nil => rfl
  | cons name path ih => exact ih

theorem within_append (path : List String) (a b : List Decl) :
    within path (a ++ b) = within path a ++ within path b := by
  induction path generalizing a b with
  | nil => rfl
  | cons name path ih => rw [within, inside_append, ih, within, within]

theorem within_within (outer path : List String) (decls : List Decl) :
    within (outer ++ path) decls = within path (within outer decls) := by
  induction outer generalizing decls with
  | nil => rfl
  | cons name outer ih => exact ih _

theorem within_nest (body : List Decl) : ∀ (outer : String) (inner : List String),
    within (outer :: inner) [Decl.nest outer inner body] = body
  | outer, [] => by simp [within, inside, Decl.nest, Decl.body?]
  | outer, next :: inner => by
      have hInner := within_nest body next inner
      simpa [within, inside, Decl.nest, Decl.body?] using hInner

/-- The first name of a path that leads somewhere is declared. -/
theorem declares_of_lookup {first : String} {rest : List String} {decls : List Decl} {decl : Decl}
    (h : lookup (first :: rest) decls = some decl) : declares decls first := by
  by_contra hNone
  have hNames : ∀ d ∈ decls, d.name ≠ first := by simpa [declares_iff] using hNone
  rw [lookup_eq_none hNames] at h
  cases h

/-- The places around a chain of namespaces, the innermost first, end with the outermost one. -/
theorem exists_inits_reverse (around : List String) : ∃ inner : List (List String),
    around.inits.reverse = inner ++ [[]] ∧ ∀ place, place ∈ inner ↔ place ≠ [] ∧ place <+: around := by
  cases around with
  | nil => exact ⟨[], rfl, by simp +contextual⟩
  | cons name rest =>
      refine ⟨(rest.inits.map (name :: ·)).reverse, by simp, fun place => ?_⟩
      rw [List.mem_reverse, List.mem_map]
      constructor
      · rintro ⟨tail, hTail, rfl⟩
        exact ⟨by simp, (List.prefix_cons_inj name).2 ((List.mem_inits _ _).1 hTail)⟩
      · rintro ⟨hPlace, hPrefix⟩
        obtain ⟨first, tail, rfl⟩ := List.exists_cons_of_ne_nil hPlace
        obtain ⟨rfl, hTail⟩ := List.cons_prefix_cons.1 hPrefix
        exact ⟨tail, (List.mem_inits _ _).2 hTail, rfl⟩

/-- A path that leads somewhere reaches it from inside, when no namespace on the way declares its
first name. -/
theorem refer_of_unhidden {decls : List Decl} {around : List String} {first : String}
    {rest : List String} {decl : Decl} (h : lookup (first :: rest) decls = some decl)
    (hUnhidden : ∀ place, place ≠ [] → place <+: around → ¬ declares (within place decls) first) :
    refer decls around (first :: rest) = some (first :: rest, decl) := by
  obtain ⟨inner, hInits, hInner⟩ := exists_inits_reverse around
  -- no namespace further in answers, so the outermost level does
  have hInside : inner.find? (fun place => declares (within place decls) first) = none :=
    List.find?_eq_none.2 fun place hMem =>
      hUnhidden place ((hInner place).1 hMem).1 ((hInner place).1 hMem).2
  have hHere : [[]].find? (fun place => declares (within place decls) first) = some [] :=
    List.find?_cons_of_pos (declares_of_lookup h)
  rw [refer, hInits, List.find?_append, hInside, hHere, Option.none_or, Option.bind_some, within, h,
    Option.map_some, List.nil_append]

/-- A path that reaches the outermost level is not hidden on the way. -/
theorem unhidden_of_refer {decls : List Decl} {around : List String} {first : String}
    {rest : List String} {decl : Decl}
    (h : refer decls around (first :: rest) = some (first :: rest, decl)) :
    ∀ place, place ≠ [] → place <+: around → ¬ declares (within place decls) first := by
  intro place hPlace hPrefix hDeclares
  obtain ⟨inner, hInits, hInner⟩ := exists_inits_reverse around
  -- a namespace further in would be found first, and the path would lead to a place in it
  have hSome : (inner.find? fun place => declares (within place decls) first).isSome :=
    List.find?_isSome.2 ⟨place, (hInner place).2 ⟨hPlace, hPrefix⟩, hDeclares⟩
  obtain ⟨found, hFound⟩ := Option.isSome_iff_exists.1 hSome
  rw [refer, hInits, List.find?_append, hFound, Option.some_or, Option.bind_some,
    Option.map_eq_some_iff] at h
  obtain ⟨_, -, hPair⟩ := h
  have hNil : found = [] := by simpa using congrArg Prod.fst hPair
  exact ((hInner found).1 (List.mem_of_find?_eq_some hFound)).1 hNil

/-- The places around a chain of namespaces that goes on inside another one come first. -/
theorem exists_inits_append_reverse (outer around : List String) :
    ∃ further, (outer ++ around).inits.reverse =
      around.inits.reverse.map (outer ++ ·) ++ further := by
  induction outer with
  | nil => exact ⟨[], by simp⟩
  | cons name outer ih =>
      obtain ⟨further, hFurther⟩ := ih
      refine ⟨further.map (name :: ·) ++ [[]], ?_⟩
      rw [List.cons_append, List.inits_cons, List.reverse_cons, ← List.map_reverse, hFurther,
        List.map_append, List.map_map, List.append_assoc]
      rfl

/-- Below a namespace that declares the first name of a path, nothing around it is asked. -/
theorem refer_append {decls : List Decl} {outer : List String} {first : String}
    (around rest : List String) (hOuter : declares (within outer decls) first) :
    refer decls (outer ++ around) (first :: rest) =
      (refer (within outer decls) around (first :: rest)).map fun found =>
        (outer ++ found.1, found.2) := by
  obtain ⟨further, hInits⟩ := exists_inits_append_reverse outer around
  have hSome : (around.inits.reverse.find? fun place =>
      declares (within place (within outer decls)) first).isSome := by
    rw [List.find?_isSome]
    exact ⟨[], by simp, hOuter⟩
  obtain ⟨place, hPlace⟩ := Option.isSome_iff_exists.1 hSome
  rw [refer, refer, hInits, List.find?_append, List.find?_map]
  simp only [Function.comp_def, within_within, hPlace, Option.map_some, Option.some_or,
    Option.bind_some, Option.map_map, List.append_assoc]

end TypeScript

/-! ## What the namespaces of messages declare -/

/-- At a place, the emitted names are those of the declared types. -/
def Reflects (outer : List String) (declared : List Declaration) (decls : List Decl) : Prop :=
  ∀ name, declares (within outer decls) name ↔
    ∃ d ∈ declared, d.isType ∧ d.path = outer ++ [name]

theorem Reflects.append {outer : List String} {ds es : List Declaration} {a b : List Decl}
    (hd : Reflects outer ds a) (he : Reflects outer es b) : Reflects outer (ds ++ es) (a ++ b) := by
  intro name
  have hAny : declares (within outer (a ++ b)) name ↔
      declares (within outer a) name ∨ declares (within outer b) name := by
    rw [within_append, declares, List.any_append, Bool.or_eq_true, declares, declares]
  rw [hAny, hd name, he name]
  simp only [List.mem_append, or_and_right, exists_or]

/-- The class of a message declares nothing, the namespace of the message does. -/
theorem inside_class_innerDecls (scope : Scope) (plan : Plan) (name outer : String)
    (body : List Decl) :
    inside name (plan.decl scope :: innerDecls outer body) = if outer = name then body else [] := by
  cases body with
  | nil => simp [innerDecls, inside, Decl.body?, Plan.decl]
  | cons first others =>
      by_cases h : outer = name <;> simp [innerDecls, inside, Decl.body?, Plan.decl, h]

theorem reflects_enums (enums : List EnumDescriptor) (outer : List String) :
    Reflects outer (enumDeclarations enums) (enums.map EnumDescriptor.decl) := by
  intro name
  cases outer with
  | nil =>
      simp [within, declares_iff, enumDeclarations, EnumDescriptor.decl, Decl.name,
        Declaration.isType]
  | cons first rest =>
      have hNone : inside first (enums.map EnumDescriptor.decl) = [] := by
        simp [inside, EnumDescriptor.decl, Decl.body?]
      rw [within, hNone, within_nil]
      simp [declares, enumDeclarations]

/-- The class and the namespace of a message have the name of the message. -/
theorem declares_class_or_inner {scope : Scope} {plan : Plan} {name : String} (body : List Decl)
    (other : String) (hName : plan.name = name) :
    declares (plan.decl scope :: innerDecls name body) other ↔ name = other := by
  have hClass : (plan.decl scope).name = name := hName
  cases body with
  | nil => simp [declares, innerDecls, hClass]
  | cons first others =>
      have hSpace : (Decl.nspace name (first :: others)).name = name := rfl
      simp [declares, innerDecls, hClass, hSpace]

/-- Nothing of a map entry is a type. -/
theorem not_type_of_mapEntry {m : MessageDescriptor} (h : m.isMapEntry) {d : Declaration}
    (hd : d ∈ messageDeclarations m) : ¬ d.isType := by
  obtain ⟨name?, fields, nested, enums, oneofs, isMapEntry⟩ := m
  rw [messageDeclarations, if_pos (by exact h)] at hd
  obtain rfl := List.mem_singleton.1 hd
  simp [Declaration.isType]

mutual

/-- What is emitted for a message has the names of the types declared in it. -/
theorem reflects_message {scope : Scope} : ∀ (m : MessageDescriptor) {decls : List Decl},
    scope.messageDecls m = .ok decls → m.isMapEntry = false → ∀ outer,
      Reflects outer (messageDeclarations m) decls
  | ⟨name?, fields, nested, enums, oneofs, isMapEntry⟩, decls, h, hOrdinary, outer => by
      obtain ⟨plan, inner, hPlan, hInner, rfl⟩ := Scope.messageDecls_eq_ok.1 h
      have hName : plan.name = name?.getD "" := Scope.plan_name hPlan
      rw [messageDeclarations, if_neg (by simp_all)]
      intro name
      cases outer with
      | nil =>
          refine (declares_class_or_inner _ name hName).trans ?_
          constructor
          · rintro rfl
            exact ⟨_, List.mem_cons_self, rfl, rfl⟩
          · rintro ⟨d, hd, -, hPath⟩
            rcases List.mem_cons.1 hd with rfl | hd
            · simpa using hPath
            · obtain ⟨under, -, rfl⟩ := List.mem_map.1 hd
              exact (List.cons.inj hPath).1
      | cons first rest =>
          -- the rest of the path is looked up in the namespace of this message or nowhere
          have hBody := (reflects_enums enums rest).append (reflects_nested nested hInner rest) name
          rw [within, inside_class_innerDecls]
          split
          · rename_i hFirst
            refine hBody.trans ⟨?_, ?_⟩
            · rintro ⟨d, hd, hType, hPath⟩
              refine ⟨d.under _, List.mem_cons_of_mem _ (List.mem_map_of_mem hd), hType, ?_⟩
              rw [Declaration.under, hPath, ← hFirst]
              rfl
            · rintro ⟨d, hd, hType, hPath⟩
              rcases List.mem_cons.1 hd with rfl | hd
              · simp at hPath
              · obtain ⟨under, hUnder, rfl⟩ := List.mem_map.1 hd
                exact ⟨under, hUnder, hType, (List.cons.inj hPath).2⟩
          · rename_i hFirst
            rw [within_nil]
            constructor
            · rintro ⟨⟩
            · rintro ⟨d, hd, -, hPath⟩
              rcases List.mem_cons.1 hd with rfl | hd
              · simp at hPath
              · obtain ⟨under, -, rfl⟩ := List.mem_map.1 hd
                exact absurd (List.cons.inj hPath).1 hFirst

theorem reflects_nested {scope : Scope} : ∀ (ms : List MessageDescriptor) {decls : List Decl},
    scope.nestedDecls ms = .ok decls → ∀ outer, Reflects outer (messagesDeclarations ms) decls
  | [], decls, h, outer => by
      obtain rfl := pure_eq_ok.1 h
      simp [Reflects, messagesDeclarations, declares]
  | m :: rest, decls, h, outer => by
      rw [Scope.nestedDecls] at h
      split at h
      · rename_i hEntry
        have hNone : Reflects outer (messageDeclarations m) [] := by
          intro name
          rw [within_nil]
          exact ⟨by rintro ⟨⟩, fun ⟨d, hd, hType, _⟩ => absurd hType (not_type_of_mapEntry hEntry hd)⟩
        exact hNone.append (reflects_nested rest h outer)
      · obtain ⟨first, hFirst, h⟩ := bind_eq_ok.1 h
        obtain ⟨others, hOthers, h⟩ := bind_eq_ok.1 h
        obtain rfl := pure_eq_ok.1 h
        exact (reflects_message m hFirst (by simp_all) outer).append
          (reflects_nested rest hOthers outer)

end

/-- Below the top level, where a map entry would be emitted like any other message. -/
theorem reflects_messages {scope : Scope} {ms : List MessageDescriptor} {groups : List (List Decl)}
    (h : ms.mapM scope.messageDecls = .ok groups) {first : String} (rest : List String)
    (hOrdinary : ∀ m ∈ ms, m.isMapEntry → m.name ≠ first) :
    Reflects (first :: rest) (messagesDeclarations ms) groups.flatten := by
  have hAll := mapM_eq_ok.1 h
  clear h
  induction hAll with
  | nil =>
      intro name
      simp [messagesDeclarations, declares]
  | @cons m decls ms groups hDecls _ ih =>
      rw [messagesDeclarations, List.flatten_cons]
      refine Reflects.append ?_ (ih fun m hm => hOrdinary m (List.mem_cons_of_mem _ hm))
      by_cases hEntry : m.isMapEntry
      · obtain ⟨plan, inner, -, -, rfl⟩ := Scope.messageDecls_eq_ok.1 hDecls
        intro name
        rw [within, inside_class_innerDecls, if_neg (hOrdinary m List.mem_cons_self hEntry),
          within_nil]
        exact ⟨by rintro ⟨⟩, fun ⟨d, hd, hType, _⟩ => absurd hType (not_type_of_mapEntry hEntry hd)⟩
      · exact reflects_message m hDecls (by simpa using hEntry) _

/-- Services open no namespaces. -/
theorem inside_services {scope : Scope} {settings : Settings} {services : List ServiceDescriptor}
    {decls : List Decl} (h : scope.allServiceDecls settings services = .ok decls) (name : String) :
    inside name decls = [] := by
  rw [inside, List.flatMap_eq_nil_iff]
  intro d hd
  suffices d.body? name = none by rw [this, Option.getD_none]
  rcases mem_allServiceDecls h hd with ⟨decl, rfl⟩ | ⟨plan, rfl | rfl⟩ <;> rfl

/-- Where something is declared in a top-level message, that message is no map entry. -/
theorem ordinary_of_nested {file : FileDescriptor} (hDistinct : DistinctPaths file.declarations)
    {d : Declaration} (hd : d ∈ file.declarations) {first second : String} {rest : List String}
    (hPath : d.path = first :: second :: rest) {m : MessageDescriptor} (hm : m ∈ file.messages)
    (hEntry : m.isMapEntry) : m.name ≠ first := by
  rintro rfl
  -- the map entry and the message that `d` is declared in would be declared on the same path
  have hMap : ⟨[m.name], .mapEntry m⟩ ∈ file.declarations := by
    refine List.mem_append_right _ (mem_messagesDeclarations.2 ⟨m, hm, ?_⟩)
    obtain ⟨name?, fields, nested, enums, oneofs, isMapEntry⟩ := m
    rw [messageDeclarations, if_pos (by exact hEntry)]
    exact List.mem_singleton_self _
  have hMessage : ∃ outer : MessageDescriptor, ⟨[m.name], .message outer⟩ ∈ file.declarations := by
    rcases List.mem_append.1 hd with h | h
    · obtain ⟨e, -, rfl⟩ := List.mem_map.1 h
      simp at hPath
    · obtain ⟨outer, hOuter, h⟩ := mem_messagesDeclarations.1 h
      refine ⟨outer, List.mem_append_right _ (mem_messagesDeclarations.2 ⟨outer, hOuter, ?_⟩)⟩
      obtain ⟨name?, fields, nested, enums, oneofs, isMapEntry⟩ := outer
      rw [messageDeclarations] at h ⊢
      split at h
      · obtain rfl := List.mem_singleton.1 h
        simp at hPath
      · rename_i hOrdinary
        rw [if_neg hOrdinary]
        rcases List.mem_cons.1 h with rfl | h
        · simp at hPath
        · obtain ⟨under, -, rfl⟩ := List.mem_map.1 h
          rw [← (List.cons.inj hPath).1]
          exact List.mem_cons_self
  obtain ⟨outer, hOuter⟩ := hMessage
  have hSame := List.inj_on_of_nodup_map hDistinct hMap hOuter rfl
  cases congrArg Declaration.item hSame

/-- The namespaces of the messages of a file declare the types declared in these messages. -/
theorem reflects_fileDecls {scope : Scope} {settings : Settings} {decls : List Decl}
    (h : scope.fileDecls settings = .ok decls) (hDistinct : DistinctPaths scope.file.declarations)
    {d : Declaration} (hd : d ∈ scope.file.declarations) {outer : List String} (hOuter : outer ≠ [])
    (hPrefix : outer <+: d.path.dropLast) : Reflects outer scope.file.declarations decls := by
  obtain ⟨messages, hMessages, h⟩ := bind_eq_ok.1 h
  obtain ⟨services, hServices, h⟩ := bind_eq_ok.1 h
  obtain rfl := pure_eq_ok.1 h
  obtain ⟨groups, hGroups, hMessages⟩ := bind_eq_ok.1 hMessages
  obtain rfl := pure_eq_ok.1 hMessages
  obtain ⟨first, rest, rfl⟩ := List.exists_cons_of_ne_nil hOuter
  obtain ⟨second, tail, hPath⟩ : ∃ second tail, d.path = first :: second :: tail := by
    obtain ⟨further, hFurther⟩ := hPrefix
    match hd : d.path with
    | [] => simp [hd] at hFurther
    | [_] => simp [hd] at hFurther
    | name :: second :: tail =>
        rw [hd, List.dropLast_cons_cons, List.cons_append] at hFurther
        exact ⟨second, tail, by rw [(List.cons.inj hFurther).1]⟩
  -- services declare nothing below the top level, so enums and messages are all there is
  have hTypes := (reflects_enums scope.file.enums (first :: rest)).append
    (reflects_messages hGroups rest fun m hm hEntry =>
      ordinary_of_nested hDistinct hd hPath hm hEntry)
  intro name
  rw [within_append, within, within, inside_services hServices, within_nil, List.append_nil]
  exact hTypes name

/-! ## References -/

/-- The package is taken off the name of a type of the package. -/
theorem withoutPackage_typeName {file : FileDescriptor}
    (hNames : ∀ d ∈ file.declarations, ∀ name ∈ d.path, Simple name)
    (hParts : ∀ part ∈ file.packageParts, Simple part) {d : Declaration}
    (hd : d ∈ file.declarations) :
    withoutPackage file.package (d.typeName (Registry.fileScope file)) =
      String.intercalate "." d.path := by
  have hSimple : ∀ part ∈ file.packageParts ++ d.path, Simple part := by
    intro part h
    rcases List.mem_append.1 h with h | h
    · exact hParts part h
    · exact hNames d hd part h
  rw [withoutPackage, typeName_eq hd, dropLeading_dot (by simp [path_ne_nil hd]) hSimple,
    FileDescriptor.packageParts]
  split
  · rw [List.nil_append]
  · have hJoin : String.intercalate "." (Text.segments '.' file.package ++ d.path) =
        file.package ++ ("." ++ String.intercalate "." d.path) := by
      rw [String.intercalate_append_of_ne_nil (Text.segments_ne_nil _ _) (path_ne_nil hd),
        show "." = String.singleton '.' from rfl, Text.join_segments, String.append_assoc]
    rw [hJoin, Text.afterStart?_eq_some.2 rfl, Option.bind_some, Text.afterStart?_eq_some.2 rfl,
      Option.getD_some]

/-- A type of the current file is referred to by its path inside the package. -/
theorem path_of_own {file : FileDescriptor} {registry : Registry}
    (hSelf : file.name ∉ file.dependencies)
    (hNames : ∀ d ∈ file.declarations, ∀ name ∈ d.path, Simple name)
    (hParts : ∀ part ∈ file.packageParts, Simple part) {d : Declaration}
    (hd : d ∈ file.declarations)
    (hOwner : registry.owner? (d.typeName (Registry.fileScope file)) = some file.name) :
    (file.scope registry).path (d.typeName (Registry.fileScope file)) =
      String.intercalate "." d.path := by
  have hUnknown : (file.scope registry).identifier? file.name = none := by
    rw [Scope.identifier?, FileDescriptor.scope_imported, List.lookup_eq_none_iff]
    intro name hName
    rw [List.mem_reverse, FileDescriptor.importNames, List.mem_mapIdx] at hName
    obtain ⟨index, hIndex, rfl⟩ := hName
    have hOther : file.name ≠ file.dependencies[index] := fun h =>
      hSelf (h ▸ List.getElem_mem hIndex)
    simpa using hOther
  rw [← withoutPackage_typeName hNames hParts hd, Scope.path, FileDescriptor.scope_registry,
    hOwner, Option.bind_some, hUnknown, FileDescriptor.scope_file]

/-- The declarations of a module stand in the namespaces of the package. -/
theorem within_inPackage (file : FileDescriptor) (decls : List Decl) :
    within file.packageParts (inPackage file.package decls) = decls := by
  obtain ⟨hNone, h⟩ | ⟨outer, inner, hParts, h⟩ := inPackage_cases file decls
  · rw [h]
    rcases hNone with hParts | rfl
    · rw [hParts, within]
    · rw [within_nil]
  · rw [h, hParts, within_nest]

/-- One of the messages around a place declares an enum or a message named like the first part of
a path. -/
def FileDescriptor.Hides (file : FileDescriptor) (around path : List String) : Prop :=
  ∃ outer, outer ≠ [] ∧ outer <+: around ∧
    ∃ d ∈ file.declarations, d.isType ∧ ∃ name ∈ path.head?, d.path = outer ++ [name]

/-- The first part of the path of a type is declared in the package of its file. -/
theorem declares_own {file : FileDescriptor} {registry : Registry} {settings : Settings}
    {version : Option Version} {source : SourceFile}
    (hSource : file.sourceFile registry settings version = .ok source)
    (hDistinct : DistinctPaths file.declarations) {used : Declaration}
    (hUsed : used ∈ file.declarations) (hType : used.isType) {first : String} {rest : List String}
    (hPath : used.path = first :: rest) :
    declares (within file.packageParts source.body) first := by
  obtain ⟨decls, hDecls, hSource⟩ := bind_eq_ok.1 hSource
  obtain rfl := pure_eq_ok.1 hSource
  have hFinds := finds_fileDecls hDecls (by rwa [FileDescriptor.scope_file])
  rw [FileDescriptor.scope_file] at hFinds
  obtain ⟨decl, -, hFound⟩ := hFinds used hUsed hType
  rw [hPath] at hFound
  rw [within_inPackage]
  exact declares_of_lookup hFound

/-- The path of a type of the same file, looked up in the class emitted for `user`, reaches what is
emitted for the type exactly when no message around `user` hides its first part. -/
theorem refer_own_iff {file : FileDescriptor} {registry : Registry} {settings : Settings}
    {version : Option Version} {source : SourceFile}
    (hSource : file.sourceFile registry settings version = .ok source)
    (hDistinct : DistinctPaths file.declarations)
    {user used : Declaration} (hUser : user ∈ file.declarations) (hUsed : used ∈ file.declarations)
    (hType : used.isType) :
    (∃ decl, (file.scope registry).Emits used.item decl ∧
      refer source.body (file.packageParts ++ user.path.dropLast) used.path =
        some (file.packageParts ++ used.path, decl)) ↔
    ¬ file.Hides user.path.dropLast used.path := by
  obtain ⟨first, rest, hPath⟩ := List.exists_cons_of_ne_nil (path_ne_nil hUsed)
  -- the package itself declares the first name, so nothing outside it is asked
  have hHere := declares_own hSource hDistinct hUsed hType hPath
  obtain ⟨decls, hDecls, hSource⟩ := bind_eq_ok.1 hSource
  obtain rfl := pure_eq_ok.1 hSource
  have hFinds := finds_fileDecls hDecls (by rwa [FileDescriptor.scope_file])
  rw [FileDescriptor.scope_file] at hFinds
  obtain ⟨decl, hEmits, hFound⟩ := hFinds used hUsed hType
  rw [hPath] at hFound
  -- a name is hidden in the descriptors exactly when it is hidden in what is emitted
  have hHides : file.Hides user.path.dropLast (first :: rest) ↔
      ∃ outer, outer ≠ [] ∧ outer <+: user.path.dropLast ∧ declares (within outer decls) first := by
    refine exists_congr fun outer => and_congr_right fun hOuter => and_congr_right fun hPrefix => ?_
    have hReflects := reflects_fileDecls hDecls (by rwa [FileDescriptor.scope_file])
      (by rwa [FileDescriptor.scope_file]) hOuter hPrefix first
    simpa using hReflects.symm
  rw [hPath, hHides, refer_append _ _ hHere, within_inPackage]
  constructor
  · rintro ⟨other, -, hReached⟩ ⟨outer, hOuter, hPrefix, hDeclares⟩
    obtain ⟨⟨place, _⟩, hRefer, hPair⟩ := Option.map_eq_some_iff.1 hReached
    obtain ⟨hPlace, -⟩ := Prod.mk.inj hPair
    obtain rfl := List.append_cancel_left hPlace
    exact unhidden_of_refer hRefer outer hOuter hPrefix hDeclares
  · intro hUnhidden
    refine ⟨decl, hEmits, ?_⟩
    rw [refer_of_unhidden hFound fun outer hOuter hPrefix hDeclares =>
      hUnhidden ⟨outer, hOuter, hPrefix, hDeclares⟩, Option.map_some]

/-- **A reference to a type of the same file reaches it, unless a message around it hides it.** The
reference stands in the class emitted for `user`, that is, in the namespaces of the package and of
the messages around `user`. It reaches the declaration emitted for the type exactly when none of
these messages declares an enum or a message named like the first part of the reference. -/
theorem local_reference_iff {file : FileDescriptor} {registry : Registry} {settings : Settings}
    {version : Option Version} {source : SourceFile}
    (hSource : file.sourceFile registry settings version = .ok source)
    (hSelf : file.name ∉ file.dependencies) (hDistinct : DistinctPaths file.declarations)
    (hNames : ∀ d ∈ file.declarations, ∀ name ∈ d.path, Simple name)
    (hParts : ∀ part ∈ file.packageParts, Simple part)
    {user used : Declaration} (hUser : user ∈ file.declarations) (hUsed : used ∈ file.declarations)
    (hType : used.isType)
    (hOwner : registry.owner? (used.typeName (Registry.fileScope file)) = some file.name) :
    (∃ decl, (file.scope registry).Emits used.item decl ∧
      refer source.body (file.packageParts ++ user.path.dropLast)
          (Text.segments '.'
            ((file.scope registry).path (used.typeName (Registry.fileScope file)))) =
        some (file.packageParts ++ used.path, decl)) ↔
    ¬ file.Hides user.path.dropLast used.path := by
  rw [path_of_own hSelf hNames hParts hUsed hOwner,
    segments_path (path_ne_nil hUsed) (hNames used hUsed)]
  exact refer_own_iff hSource hDistinct hUser hUsed hType

/-- A message without fields and without anything declared in it. -/
def emptyMessage (name : String) : MessageDescriptor := ⟨some name, [], [], [], [], false⟩

/-- A message with a field of the type `B` of the package. -/
def referring : MessageDescriptor :=
  ⟨some "N", [⟨some "f", some 1, .optional, some 11, some ".p.B", "", none, false, false, false⟩],
    [], [], [], false⟩

/-- A message in which another `B` is declared next to the one that refers to a `B`. -/
def surrounding : MessageDescriptor :=
  ⟨some "M", [], [emptyMessage "B", referring], [], [], false⟩

/-- A file that declares `B` on two levels. -/
def twoLevels : FileDescriptor :=
  { FileDescriptor.blank with
    name := "a.proto", package := "p", syntaxName := "proto3"
    messages := [emptyMessage "B", surrounding] }

/-- What is known about the file. -/
def twoLevelsRegistry : Registry :=
  [".p.B", ".p.M", ".p.M.B", ".p.M.N"].foldl (·.declare "a.proto" ·) .empty

theorem distinctPaths_twoLevels : DistinctPaths twoLevels.declarations := by
  unfold DistinctPaths
  decide +kernel

theorem simpleNames_twoLevels : ∀ d ∈ twoLevels.declarations, ∀ name ∈ d.path, Simple name := by
  decide +kernel

theorem simpleParts_twoLevels : ∀ part ∈ twoLevels.packageParts, Simple part := by
  decide +kernel

theorem owner?_twoLevels : twoLevelsRegistry.owner? ".p.B" = some "a.proto" := by
  simp [twoLevelsRegistry, Registry.owner?_declare]

theorem used_mem_twoLevels : ⟨["B"], .message (emptyMessage "B")⟩ ∈ twoLevels.declarations :=
  List.mem_cons_self

theorem local_reference_unhidden :
    ∃ source decl, Registry.ofFiles [twoLevels] = .ok twoLevelsRegistry ∧
      twoLevels.sourceFile twoLevelsRegistry .standard none = .ok source ∧
      (twoLevels.scope twoLevelsRegistry).Emits (.message (emptyMessage "B")) decl ∧
      refer source.body ["p"]
          (Text.segments '.' ((twoLevels.scope twoLevelsRegistry).path ".p.B")) =
        some (["p", "B"], decl) := by
  obtain ⟨source, hSource⟩ :
      ∃ source, twoLevels.sourceFile twoLevelsRegistry .standard none = .ok source := ⟨_, rfl⟩
  have hUser : ⟨["M"], .message surrounding⟩ ∈ twoLevels.declarations :=
    List.mem_cons_of_mem _ List.mem_cons_self
  have hUnhidden : ¬ twoLevels.Hides [] ["B"] := by
    rintro ⟨outer, hOuter, hPrefix, -⟩
    exact hOuter (List.prefix_nil.1 hPrefix)
  obtain ⟨decl, hEmits, hRefer⟩ := (local_reference_iff hSource (by decide)
    distinctPaths_twoLevels simpleNames_twoLevels simpleParts_twoLevels hUser used_mem_twoLevels
    rfl owner?_twoLevels).2 hUnhidden
  exact ⟨source, decl, rfl, hSource, hEmits, hRefer⟩

/-- **A reference that goes astray.** In the class `M.N` the field of the outer type `B` is emitted
with the reference `B`, which there means the `B` declared in `M`. -/
theorem local_reference_hidden :
    ∃ source, Registry.ofFiles [twoLevels] = .ok twoLevelsRegistry ∧
      twoLevels.sourceFile twoLevelsRegistry .standard none = .ok source ∧
      twoLevels.name ∉ twoLevels.dependencies ∧
      ⟨["M", "N"], .message referring⟩ ∈ twoLevels.declarations ∧
      twoLevelsRegistry.owner? ".p.B" = some twoLevels.name ∧
      (twoLevels.scope twoLevelsRegistry).path ".p.B" = "B" ∧
      (refer source.body ["p", "M"] ["B"]).map Prod.fst = some ["p", "M", "B"] := by
  obtain ⟨source, hSource⟩ :
      ∃ source, twoLevels.sourceFile twoLevelsRegistry .standard none = .ok source := ⟨_, rfl⟩
  have hUser : ⟨["M", "N"], .message referring⟩ ∈ twoLevels.declarations :=
    .tail _ (.tail _ (.tail _ (.head _)))
  have hPath : (twoLevels.scope twoLevelsRegistry).path ".p.B" = "B" :=
    path_of_own (by decide) simpleNames_twoLevels simpleParts_twoLevels used_mem_twoLevels
      owner?_twoLevels
  refine ⟨source, rfl, hSource, by decide, hUser, owner?_twoLevels, hPath, ?_⟩
  cases hSource
  rfl

end Protoscribe

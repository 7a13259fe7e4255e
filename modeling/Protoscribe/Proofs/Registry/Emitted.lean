import Protoscribe.Proofs.Linking

set_option autoImplicit false

/-! # What is emitted is what is registered

The registry and the module of a file come from two walks through the file: registration inserts
the qualified names of enums and messages, and composition puts enums and classes into namespaces.
Main statement: `emitted_eq_registered`, read in order, the enums and message classes of a module
are the types that registration inserts, name by name and kind by kind.

The walk through a module (`typesIn`) keeps the names of the namespaces around a declaration. On
each level it meets what `FileDescriptor.declarations` lists, map entries left out (`Lists`).
-/

namespace Protoscribe

open TypeScript Checked

/-- The two kinds of types. -/
inductive TypeKind where
  | enum
  | message
  deriving DecidableEq

/-! ## The walk through a module -/

namespace TypeScript

/-- Whether a class is the class of a message: it extends the message of the runtime. The classes
of a service extend something else or nothing. -/
def ClassDecl.isMessage (decl : ClassDecl) : Bool :=
  match decl.base with
  | some (.member (.ident runtime) name) => runtime = "pb_1" && name = "Message"
  | _ => false

mutual

/-- The enums and message classes in a declaration, each with its name after the names of the
namespaces around it. Interfaces and the classes of services are left out. -/
def Decl.types (around : List String) : Decl → List (TypeKind × List String)
  | .enumeration decl => [(.enum, around ++ [decl.name])]
  | .classDecl decl => if decl.isMessage then [(.message, around ++ [decl.name])] else []
  | .callable _ => []
  | .nspace name body => typesIn (around ++ [name]) body

/-- The enums and message classes in a list of declarations, in their order. -/
def typesIn (around : List String) : List Decl → List (TypeKind × List String)
  | [] => []
  | decl :: rest => decl.types around ++ typesIn around rest

end

/-- The enums and message classes of a module in their order, each under its qualified name: a dot,
and the names of the namespaces around it and its own joined by dots. -/
def SourceFile.types (source : SourceFile) : List (TypeKind × String) :=
  (typesIn [] source.body).map fun (kind, path) => (kind, "." ++ String.intercalate "." path)

theorem typesIn_append (around : List String) (a b : List Decl) :
    typesIn around (a ++ b) = typesIn around a ++ typesIn around b := by
  induction a with
  | nil => rfl
  | cons decl a ih => rw [List.cons_append, typesIn, ih, typesIn, List.append_assoc]

theorem typesIn_singleton (around : List String) (decl : Decl) :
    typesIn around [decl] = decl.types around := by
  rw [typesIn, typesIn, List.append_nil]

theorem typesIn_nest (body : List Decl) : ∀ (around : List String) (outer : String)
    (inner : List String),
    typesIn around [Decl.nest outer inner body] = typesIn (around ++ outer :: inner) body
  | around, outer, [] => by rw [typesIn_singleton, Decl.nest, Decl.types]
  | around, outer, next :: inner => by
      rw [typesIn_singleton, Decl.nest, Decl.types, typesIn_nest body, List.append_assoc,
        List.singleton_append]

end TypeScript

theorem typesIn_innerDecls (around : List String) (name : String) (body : List Decl) :
    typesIn around (innerDecls name body) = typesIn (around ++ [name]) body := by
  cases body with
  | nil => rfl
  | cons first others => rw [innerDecls, typesIn_singleton, Decl.types]

/-! ## The types that are registered -/

/-- What kind of type is declared; a map entry is none. -/
def Declared.kind? : Declared → Option TypeKind
  | .enum _ => some .enum
  | .message _ => some .message
  | .mapEntry _ => none

/-- A declared type with its path inside `around`. -/
def Declaration.type? (around : List String) (d : Declaration) : Option (TypeKind × List String) :=
  d.item.kind?.map fun kind => (kind, around ++ d.path)

/-- The types that registration inserts, in its order. -/
def FileDescriptor.registeredTypes (file : FileDescriptor) : List (TypeKind × String) :=
  file.declarations.filterMap fun d =>
    d.item.kind?.map fun kind => (kind, d.typeName (Registry.fileScope file))

/-- Every step from a level of declarations to `d` goes through a message that is no map entry, and
`d` is an enum or such a message itself. -/
inductive OutsideMapEntries : List EnumDescriptor → List MessageDescriptor → Declaration → Prop
  | enum {enums : List EnumDescriptor} {messages : List MessageDescriptor} {e : EnumDescriptor}
      (he : e ∈ enums) : OutsideMapEntries enums messages ⟨[e.name], .enum e⟩
  | message {enums : List EnumDescriptor} {messages : List MessageDescriptor}
      {m : MessageDescriptor} (hm : m ∈ messages) (ordinary : m.isMapEntry = false) :
      OutsideMapEntries enums messages ⟨[m.name], .message m⟩
  | nested {enums : List EnumDescriptor} {messages : List MessageDescriptor}
      {m : MessageDescriptor} {d : Declaration} (hm : m ∈ messages)
      (ordinary : m.isMapEntry = false) (h : OutsideMapEntries m.enums m.nested d) :
      OutsideMapEntries enums messages (d.under m.name)

/-- The walk meets whatever is outside of all map entries, and it is a type. -/
theorem visited_of_outside {enums : List EnumDescriptor} {messages : List MessageDescriptor}
    {d : Declaration} (h : OutsideMapEntries enums messages d) :
    d ∈ enumDeclarations enums ++ messagesDeclarations messages ∧ d.isType := by
  induction h with
  | enum he => exact ⟨List.mem_append_left _ (List.mem_map.2 ⟨_, he, rfl⟩), rfl⟩
  | message hm ordinary =>
      refine ⟨List.mem_append_right _ (mem_messagesDeclarations.2 ⟨_, hm, ?_⟩), rfl⟩
      rw [messageDeclarations_ordinary ordinary]
      exact List.mem_cons_self
  | nested hm ordinary _ ih =>
      refine ⟨List.mem_append_right _ (mem_messagesDeclarations.2 ⟨_, hm, ?_⟩), ih.2⟩
      rw [messageDeclarations_ordinary ordinary]
      exact List.mem_cons_of_mem _ (List.mem_map.2 ⟨_, ih.1, rfl⟩)

mutual

/-- A type that the walk meets in a message of a level is outside of all map entries. -/
theorem outside_of_message : ∀ {m : MessageDescriptor} {d : Declaration}
    {enums : List EnumDescriptor} {messages : List MessageDescriptor}, m ∈ messages →
    d ∈ messageDeclarations m → d.isType → OutsideMapEntries enums messages d
  | ⟨name?, fields, nested, inner, oneofs, isMapEntry⟩, d, enums, messages, hm, hd, hType => by
      cases hEntry : isMapEntry with
      | true =>
          -- nothing in a map entry is visited, and the entry itself is no type
          rw [messageDeclarations_mapEntry hEntry] at hd
          obtain rfl := List.mem_singleton.1 hd
          cases hType
      | false =>
          rw [messageDeclarations_ordinary hEntry] at hd
          rcases List.mem_cons.1 hd with rfl | hd
          · exact .message hm hEntry
          · obtain ⟨within, hWithin, rfl⟩ := List.mem_map.1 hd
            refine .nested hm hEntry ?_
            rcases List.mem_append.1 hWithin with hEnum | hMessage
            · obtain ⟨e, he, rfl⟩ := List.mem_map.1 hEnum
              exact .enum he
            · exact outside_of_messages (fun _ h => h) hMessage hType

theorem outside_of_messages : ∀ {ms : List MessageDescriptor} {d : Declaration}
    {enums : List EnumDescriptor} {messages : List MessageDescriptor}, ms ⊆ messages →
    d ∈ messagesDeclarations ms → d.isType → OutsideMapEntries enums messages d
  | [], _, _, _, _, hd, _ => by cases hd
  | m :: rest, d, enums, messages, hAll, hd, hType => by
      obtain ⟨hFirst, hRest⟩ := List.cons_subset.1 hAll
      rcases List.mem_append.1 hd with hd | hd
      · exact outside_of_message hFirst hd hType
      · exact outside_of_messages hRest hd hType

end

/-- **The walk of a file meets exactly the types outside of all map entries.** -/
theorem mem_declarations_iff {file : FileDescriptor} {d : Declaration} :
    d ∈ file.declarations ∧ d.isType ↔ OutsideMapEntries file.enums file.messages d := by
  constructor
  · rintro ⟨hd, hType⟩
    rcases List.mem_append.1 hd with hEnum | hMessage
    · obtain ⟨e, he, rfl⟩ := List.mem_map.1 hEnum
      exact .enum he
    · exact outside_of_messages (fun _ h => h) hMessage hType
  · exact visited_of_outside

/-! ## One walk meets what the other one meets -/

/-- The types in some emitted declarations are the declared ones, in the same order. -/
def Lists (declared : List Declaration) (decls : List Decl) : Prop :=
  ∀ around, typesIn around decls = declared.filterMap (Declaration.type? around)

theorem Lists.append {ds es : List Declaration} {a b : List Decl} (hd : Lists ds a)
    (he : Lists es b) : Lists (ds ++ es) (a ++ b) := by
  intro around
  rw [typesIn_append, List.filterMap_append, hd around, he around]

theorem lists_mapEntry {m : MessageDescriptor} (h : m.isMapEntry) :
    Lists (messageDeclarations m) [] := by
  intro around
  rw [messageDeclarations_mapEntry h]
  rfl

theorem lists_enums (enums : List EnumDescriptor) :
    Lists (enumDeclarations enums) (enums.map EnumDescriptor.decl) := by
  intro around
  induction enums with
  | nil => rfl
  | cons e enums ih =>
      rw [List.map_cons, typesIn, ih]
      rfl

/-- The class of a message and the namespace beside it. -/
theorem lists_message {scope : Scope} (hRuntime : scope.runtime = "pb_1") {m : MessageDescriptor}
    (ordinary : m.isMapEntry = false) {plan : Plan} (hName : plan.name = m.name)
    {inner : List Decl} (hInner : Lists (messagesDeclarations m.nested) inner) :
    Lists (messageDeclarations m)
      (plan.decl scope :: innerDecls m.name (m.enums.map EnumDescriptor.decl ++ inner)) := by
  intro around
  have hLevel := (lists_enums m.enums).append hInner (around ++ [m.name])
  have hClass : (plan.decl scope).types around = [(.message, around ++ [m.name])] := by
    simp [Plan.decl, Decl.types, ClassDecl.isMessage, Scope.runtimeMessage, hRuntime, hName]
  have hUnder : Declaration.type? around ∘ (Declaration.under m.name) =
      Declaration.type? (around ++ [m.name]) := by
    funext d
    simp [Declaration.type?, Declaration.under]
  have hSelf : Declaration.type? around ⟨[m.name], .message m⟩ =
      some (.message, around ++ [m.name]) := rfl
  rw [typesIn, hClass, typesIn_innerDecls, hLevel, messageDeclarations_ordinary ordinary,
    List.filterMap_cons_some hSelf, List.filterMap_map, hUnder]
  rfl

mutual

theorem lists_messageDecls {scope : Scope} (hRuntime : scope.runtime = "pb_1") :
    ∀ {m : MessageDescriptor} {decls : List Decl}, m.isMapEntry = false →
      scope.messageDecls m = .ok decls → Lists (messageDeclarations m) decls
  | ⟨name?, fields, nested, enums, oneofs, isMapEntry⟩, decls, ordinary, h => by
      obtain ⟨plan, inner, hPlan, hInner, rfl⟩ := Scope.messageDecls_eq_ok.1 h
      exact lists_message hRuntime ordinary (Scope.plan_name hPlan)
        (lists_nestedDecls hRuntime hInner)

theorem lists_nestedDecls {scope : Scope} (hRuntime : scope.runtime = "pb_1") :
    ∀ {ms : List MessageDescriptor} {decls : List Decl},
      scope.nestedDecls ms = .ok decls → Lists (messagesDeclarations ms) decls
  | [], decls, h => by
      obtain rfl := pure_eq_ok.1 h
      intro around
      rfl
  | m :: rest, decls, h => by
      rw [Scope.nestedDecls] at h
      split at h
      · -- a map entry is skipped here and visited there, but it is not a type
        rename_i hEntry
        exact (lists_mapEntry hEntry).append (lists_nestedDecls hRuntime h)
      · rename_i hEntry
        obtain ⟨first, hFirst, h⟩ := bind_eq_ok.1 h
        obtain ⟨others, hOthers, h⟩ := bind_eq_ok.1 h
        obtain rfl := pure_eq_ok.1 h
        exact (lists_messageDecls hRuntime (by simpa using hEntry) hFirst).append
          (lists_nestedDecls hRuntime hOthers)

end

theorem lists_messages {scope : Scope} (hRuntime : scope.runtime = "pb_1")
    {ms : List MessageDescriptor} {groups : List (List Decl)}
    (ordinary : ∀ m ∈ ms, m.isMapEntry = false) (h : ms.mapM scope.messageDecls = .ok groups) :
    Lists (messagesDeclarations ms) groups.flatten := by
  have hAll := mapM_eq_ok.1 h
  clear h
  induction hAll with
  | nil => exact fun _ => rfl
  | cons hFirst _ ih =>
      obtain ⟨hOrdinary, hRest⟩ := List.forall_mem_cons.1 ordinary
      rw [messagesDeclarations, List.flatten_cons]
      exact (lists_messageDecls hRuntime hOrdinary hFirst).append (ih hRest)

/-- Services declare no enum and no class of a message. -/
theorem typesIn_services {scope : Scope} {settings : Settings} {services : List ServiceDescriptor}
    {decls : List Decl} (h : scope.allServiceDecls settings services = .ok decls)
    (around : List String) : typesIn around decls = [] := by
  have hNone : ∀ d ∈ decls, d.types around = [] := by
    intro d hd
    rcases mem_allServiceDecls h hd with ⟨decl, rfl⟩ | ⟨plan, rfl | rfl⟩ <;> rfl
  clear h
  induction decls with
  | nil => rfl
  | cons d decls ih =>
      obtain ⟨hFirst, hRest⟩ := List.forall_mem_cons.1 hNone
      rw [typesIn, hFirst, ih hRest, List.append_nil]

/-- The types of a file are those it declares. -/
theorem lists_fileDecls {scope : Scope} (hRuntime : scope.runtime = "pb_1") {settings : Settings}
    {decls : List Decl} (ordinary : ∀ m ∈ scope.file.messages, m.isMapEntry = false)
    (h : scope.fileDecls settings = .ok decls) : Lists scope.file.declarations decls := by
  obtain ⟨messages, hMessages, h⟩ := bind_eq_ok.1 h
  obtain ⟨services, hServices, h⟩ := bind_eq_ok.1 h
  obtain rfl := pure_eq_ok.1 h
  obtain ⟨groups, hGroups, hMessages⟩ := bind_eq_ok.1 hMessages
  obtain rfl := pure_eq_ok.1 hMessages
  intro around
  rw [typesIn_append, typesIn_services hServices, List.append_nil]
  exact (lists_enums _).append (lists_messages hRuntime ordinary hGroups) around

theorem typesIn_inPackage (file : FileDescriptor) (decls : List Decl) :
    typesIn [] (inPackage file.package decls) = typesIn file.packageParts decls := by
  obtain ⟨hNone, h⟩ | ⟨outer, inner, hParts, h⟩ := inPackage_cases file decls
  · -- without a package there are no namespaces, and without declarations nothing is in them
    rw [h]
    rcases hNone with hParts | rfl
    · rw [hParts]
    · rfl
  · rw [h, hParts, typesIn_nest, List.nil_append]

/-! ## Names and insertions -/

/-- The paths of the declared types, put into the package, are the registered names. -/
theorem types_eq_registeredTypes (file : FileDescriptor) :
    (file.declarations.filterMap (Declaration.type? file.packageParts)).map
      (fun (kind, path) => (kind, "." ++ String.intercalate "." path)) = file.registeredTypes := by
  rw [List.map_filterMap, FileDescriptor.registeredTypes]
  refine List.filterMap_congr fun d hd => ?_
  rw [typeName_eq hd, Declaration.type?, Option.map_map]
  rfl

namespace Registry

/-- Visiting declarations inserts their types one by one. -/
theorem owners_visitAll {file scope : String} {before after : Registry} {ds : List Declaration}
    (h : before.visitAll file scope ds = (after, none)) :
    after.owners = (ds.filterMap fun d => d.item.kind?.map fun kind =>
      (kind, d.typeName scope)).foldl (fun owners t => owners.insert t.2 file) before.owners := by
  induction ds generalizing before with
  | nil =>
      obtain rfl : before = after := congrArg Prod.fst h
      rfl
  | cons d ds ih =>
      rw [visitAll] at h
      rcases hVisit : before.visit file scope d with ⟨next, _ | failure⟩
      · rw [hVisit] at h
        rw [ih h]
        obtain ⟨path, item⟩ := d
        cases item with
        | enum e =>
            obtain rfl := congrArg Prod.fst hVisit
            rfl
        | message m =>
            obtain rfl := congrArg Prod.fst hVisit
            rfl
        | mapEntry m =>
            have hOwners : next.owners = before.owners := by
              simp only [visit] at hVisit
              split at hVisit
              · obtain rfl := congrArg Prod.fst hVisit
                rfl
              · cases hVisit
            rw [hOwners]
            rfl
      · rw [hVisit] at h
        cases h

/-- **Registering a file inserts its registered types in their order**, and nothing else. -/
theorem owners_register {files : List FileDescriptor} {registry : Registry}
    (hRegistry : ofFiles files = .ok registry) {file : FileDescriptor} (hFile : file ∈ files)
    (before : Registry) : ∃ after, before.register file = (after, none) ∧
      after.owners = file.registeredTypes.foldl (fun owners t => owners.insert t.2 file.name)
        before.owners := by
  have hGood : ∀ d ∈ file.declarations, ¬ d.LacksSide :=
    (registerAll_succeeds_iff empty files).1 ⟨registry, hRegistry⟩ file hFile
  have hVisited : (before.visitAll file.name (fileScope file) file.declarations).2 = none := by
    by_contra hFails
    obtain ⟨d, hd, hLacks⟩ := (visitAll_fails_iff _ _ _ _).1 hFails
    exact hGood d hd hLacks
  refine ⟨(before.register file).1, ?_, ?_⟩
  · rw [register_eq_visitAll, ← hVisited]
  · have hRegister : before.visitAll file.name (fileScope file) file.declarations =
        ((before.register file).1, none) := by
      rw [register_eq_visitAll, ← hVisited]
    exact owners_visitAll hRegister

end Registry

/-- **What is emitted is exactly what is registered.** The enums and message classes of a module,
read in order, are the types that registering the file inserts, in the order of the insertions.
They are the enums and messages that are reached from the file through messages only, and neither
a map entry nor anything declared in one. -/
theorem emitted_eq_registered {files : List FileDescriptor} {registry : Registry}
    (hRegistry : Registry.ofFiles files = .ok registry) {file : FileDescriptor}
    (hFile : file ∈ files) (ordinary : ∀ m ∈ file.messages, m.isMapEntry = false)
    {settings : Settings} {version : Option Version} {source : SourceFile}
    (hSource : file.sourceFile registry settings version = .ok source) :
    source.types = file.registeredTypes ∧
      (∀ before : Registry, ∃ after, before.register file = (after, none) ∧
        after.owners = source.types.foldl (fun owners t => owners.insert t.2 file.name)
          before.owners) ∧
      ∀ d, d ∈ file.declarations ∧ d.isType ↔ OutsideMapEntries file.enums file.messages d := by
  obtain ⟨decls, hDecls, hSource⟩ := bind_eq_ok.1 hSource
  obtain rfl := pure_eq_ok.1 hSource
  have hLists : Lists file.declarations decls := by
    have h := lists_fileDecls (file.scope_runtime registry) (by simpa using ordinary) hDecls
    rwa [FileDescriptor.scope_file] at h
  have hTypes : SourceFile.types ⟨file.header version,
      file.dependencyImports ++ (file.scope registry).runtimeImports settings decls,
      inPackage file.package decls⟩ = file.registeredTypes := by
    rw [SourceFile.types, typesIn_inPackage, hLists, types_eq_registeredTypes]
  refine ⟨hTypes, fun before => ?_, fun d => mem_declarations_iff⟩
  rw [hTypes]
  exact Registry.owners_register hRegistry hFile before

/-- A message with an enum, a message and the entries of a map in it; the entries have an enum in
them again. -/
def shelf : MessageDescriptor :=
  ⟨some "Shelf", [],
    [⟨some "SpotsEntry",
      [⟨some "key", some 1, .optional, some 9, none, "", none, false, false, false⟩,
        ⟨some "value", some 2, .optional, some 5, none, "", none, false, false, false⟩],
      [], [⟨"Lost", []⟩], [], true⟩,
    ⟨some "Book", [], [], [], [], false⟩],
    [⟨"Color", [⟨"RED", 0⟩]⟩], [], false⟩

/-- A file in a package of two parts, with an enum, a message and a service. -/
def cabinet : FileDescriptor :=
  { FileDescriptor.blank with
    name := "cabinet.proto", package := "p.q", syntaxName := "proto3"
    messages := [shelf], enums := [⟨"Size", [⟨"SMALL", 0⟩]⟩]
    services := [⟨some "Desk", [⟨"find", some ".p.q.Shelf", some ".p.q.Shelf.Book", false, true⟩]⟩] }

theorem emitted_eq_registered_cabinet :
    ∃ registry source, Registry.ofFiles [cabinet] = .ok registry ∧
      cabinet.sourceFile registry .standard none = .ok source ∧
      source.types = cabinet.registeredTypes ∧
      cabinet.registeredTypes = [(.enum, ".p.q.Size"), (.message, ".p.q.Shelf"),
        (.enum, ".p.q.Shelf.Color"), (.message, ".p.q.Shelf.Book")] := by
  obtain ⟨registry, hRegistry⟩ : ∃ registry, Registry.ofFiles [cabinet] = .ok registry := ⟨_, rfl⟩
  obtain ⟨source, hSource⟩ :
      ∃ source, cabinet.sourceFile registry .standard none = .ok source := by
    cases hRegistry
    exact ⟨_, rfl⟩
  refine ⟨registry, source, hRegistry, hSource, ?_, by rfl⟩
  exact (emitted_eq_registered hRegistry (List.mem_singleton_self _) (by decide) hSource).1

end Protoscribe

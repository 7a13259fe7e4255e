import Mathlib.Data.List.Basic
import Protoscribe.Registry

set_option autoImplicit false

/-! # The declarations of a file

Registration walks through a file: the enums of a level, then each message followed by what is
declared in it. `FileDescriptor.declarations` is this walk as a list, where a map entry is visited
but nothing inside it is. A declaration has a path, the names of the messages around it and its
own name, so that the qualified name under a scope is `Declaration.typeName`. Main statement:
`register_eq_visitAll`, registering a file is visiting its declarations one by one until one of
them fails.

From this follow when registration fails (`registerAll_succeeds_iff`) and what a registry knows
(`declared_of_owner?`).
-/

namespace Protoscribe

/-- What is declared. -/
inductive Declared where
  | enum (descriptor : EnumDescriptor)
  | message (descriptor : MessageDescriptor)
  | mapEntry (descriptor : MessageDescriptor)

/-- Something declared, with its name after the names of the messages around it. -/
structure Declaration where
  path : List String
  item : Declared

namespace Declaration

/-- The qualified name of a declaration under a scope. -/
def typeName (scope : String) (d : Declaration) : String := d.path.foldl qualified scope

/-- A declaration seen from outside the message it is declared in. -/
def under (outer : String) (d : Declaration) : Declaration := ⟨outer :: d.path, d.item⟩

/-- Whether an enum or a message that is no map entry is declared. -/
def isType (d : Declaration) : Bool :=
  match d.item with
  | .enum _ => true
  | .message _ => true
  | .mapEntry _ => false

/-- A map entry is declared without a field numbered 1 or without a field numbered 2. -/
def LacksSide (d : Declaration) : Prop :=
  ∃ m, d.item = .mapEntry m ∧
    ((∀ f ∈ m.fields, f.number ≠ 1) ∨ ∀ f ∈ m.fields, f.number ≠ 2)

@[simp] theorem typeName_under (scope outer : String) (d : Declaration) :
    (d.under outer).typeName scope = d.typeName (qualified scope outer) := rfl

@[simp] theorem isType_under (outer : String) (d : Declaration) :
    (d.under outer).isType = d.isType := rfl

end Declaration

/-! ## The walk -/

/-- The enums of one level. -/
def enumDeclarations (enums : List EnumDescriptor) : List Declaration :=
  enums.map fun e => ⟨[e.name], .enum e⟩

mutual

/-- A message and what is declared in it. -/
def messageDeclarations : MessageDescriptor → List Declaration
  | ⟨name?, fields, nested, enums, oneofs, isMapEntry⟩ =>
    let name := name?.getD ""
    let m : MessageDescriptor := ⟨name?, fields, nested, enums, oneofs, isMapEntry⟩
    if isMapEntry then [⟨[name], .mapEntry m⟩]
    else ⟨[name], .message m⟩
      :: (enumDeclarations enums ++ messagesDeclarations nested).map (·.under name)

/-- The messages of one level, each followed by what is declared in it. -/
def messagesDeclarations : List MessageDescriptor → List Declaration
  | [] => []
  | m :: rest => messageDeclarations m ++ messagesDeclarations rest

end

theorem messageDeclarations_mapEntry {m : MessageDescriptor} (h : m.isMapEntry) :
    messageDeclarations m = [⟨[m.name], .mapEntry m⟩] := by
  obtain ⟨name?, fields, nested, enums, oneofs, isMapEntry⟩ := m
  rw [messageDeclarations, if_pos (by exact h)]
  rfl

theorem messageDeclarations_ordinary {m : MessageDescriptor} (h : m.isMapEntry = false) :
    messageDeclarations m = ⟨[m.name], .message m⟩ ::
      (enumDeclarations m.enums ++ messagesDeclarations m.nested).map (·.under m.name) := by
  obtain ⟨name?, fields, nested, enums, oneofs, isMapEntry⟩ := m
  rw [messageDeclarations, if_neg (by simpa using h)]
  rfl

theorem mem_messagesDeclarations {ms : List MessageDescriptor} {d : Declaration} :
    d ∈ messagesDeclarations ms ↔ ∃ m ∈ ms, d ∈ messageDeclarations m := by
  induction ms with
  | nil => simp [messagesDeclarations]
  | cons m ms ih => simp [messagesDeclarations, ih]

/-- What a file declares, in the order of registration. -/
def FileDescriptor.declarations (file : FileDescriptor) : List Declaration :=
  enumDeclarations file.enums ++ messagesDeclarations file.messages

/-! ## Visiting -/

namespace Registry

/-- The registry after one declaration in a scope of a file. -/
def visit (file scope : String) (registry : Registry) (d : Declaration) :
    Registry × Option Failure :=
  match d.item with
  | .enum _ => (registry.declare file (d.typeName scope), none)
  | .message _ => (registry.declare file (d.typeName scope), none)
  | .mapEntry m =>
    match m.keyValue? with
    | some entry => (registry.declareMap (d.typeName scope) entry, none)
    | none => (registry, some (.incompleteMapEntry (d.typeName scope)))

/-- The registry after several declarations, up to the first that fails. -/
def visitAll (file scope : String) (registry : Registry) :
    List Declaration → Registry × Option Failure
  | [] => (registry, none)
  | d :: rest =>
    match registry.visit file scope d with
    | (registry, none) => registry.visitAll file scope rest
    | (registry, some failure) => (registry, some failure)

theorem visitAll_append (file scope : String) (registry : Registry) (ds es : List Declaration) :
    registry.visitAll file scope (ds ++ es) =
      match registry.visitAll file scope ds with
      | (registry, none) => registry.visitAll file scope es
      | (registry, some failure) => (registry, some failure) := by
  induction ds generalizing registry with
  | nil => rfl
  | cons d ds ih =>
      rw [List.cons_append, visitAll, visitAll]
      rcases h : registry.visit file scope d with ⟨next, _ | failure⟩
      · simp only [ih]
      · rfl

/-- What is declared in a message is visited in the scope of the message. -/
theorem visitAll_under (file scope outer : String) (registry : Registry) (ds : List Declaration) :
    registry.visitAll file scope (ds.map (·.under outer)) =
      registry.visitAll file (qualified scope outer) ds := by
  induction ds generalizing registry with
  | nil => rfl
  | cons d ds ih =>
      have hVisit : registry.visit file scope (d.under outer) =
          registry.visit file (qualified scope outer) d := rfl
      simp only [List.map_cons, visitAll, hVisit, ih]

theorem visitAll_enums (file scope : String) (registry : Registry) (enums : List EnumDescriptor)
    (ds : List Declaration) :
    registry.visitAll file scope (enumDeclarations enums ++ ds) =
      (registry.registerEnums file scope enums).visitAll file scope ds := by
  induction enums generalizing registry with
  | nil => rfl
  | cons e enums ih => exact ih (registry.declare file (qualified scope e.name))

mutual

theorem registerMessage_eq_visitAll (file scope : String) (registry : Registry) :
    ∀ m : MessageDescriptor, registry.registerMessage file scope m =
      registry.visitAll file scope (messageDeclarations m)
  | ⟨name?, fields, nested, enums, oneofs, isMapEntry⟩ => by
      rw [registerMessage, messageDeclarations]
      split
      · simp only [visitAll, visit]
        split <;> simp_all [Declaration.typeName]
      · rw [registerMessages_eq_visitAll, ← visitAll_enums, ← visitAll_under]
        rfl

theorem registerMessages_eq_visitAll (file scope : String) (registry : Registry) :
    ∀ ms : List MessageDescriptor, registry.registerMessages file scope ms =
      registry.visitAll file scope (messagesDeclarations ms)
  | [] => rfl
  | m :: rest => by
      rw [registerMessages, messagesDeclarations, visitAll_append,
        registerMessage_eq_visitAll file scope registry m]
      rcases registry.visitAll file scope (messageDeclarations m) with ⟨next, _ | failure⟩
      · exact registerMessages_eq_visitAll file scope next rest
      · rfl

end

/-- **Registering a file is visiting its declarations in order.** -/
theorem register_eq_visitAll (registry : Registry) (file : FileDescriptor) :
    registry.register file =
      registry.visitAll file.name (fileScope file) file.declarations := by
  rw [register, registerMessages_eq_visitAll, FileDescriptor.declarations, visitAll_enums]

end Registry

/-! ## When registration fails -/

theorem MessageDescriptor.keyValue?_eq_none {m : MessageDescriptor} :
    m.keyValue? = none ↔ (∀ f ∈ m.fields, f.number ≠ 1) ∨ ∀ f ∈ m.fields, f.number ≠ 2 := by
  have hNone (n : Int) : m.fields.find? (·.number = n) = none ↔ ∀ f ∈ m.fields, f.number ≠ n := by
    simp [List.find?_eq_none]
  rw [← hNone, ← hNone, keyValue?]
  cases m.fields.find? (·.number = 1) <;> cases m.fields.find? (·.number = 2) <;> simp

namespace Registry

theorem visit_fails_iff (file scope : String) (registry : Registry) (d : Declaration) :
    (registry.visit file scope d).2 ≠ none ↔ d.LacksSide := by
  obtain ⟨path, item⟩ := d
  cases item with
  | enum e => simp [visit, Declaration.LacksSide]
  | message m => simp [visit, Declaration.LacksSide]
  | mapEntry m =>
      simp only [visit, Declaration.LacksSide, Declared.mapEntry.injEq, exists_eq_left',
        ← MessageDescriptor.keyValue?_eq_none]
      cases m.keyValue? <;> simp

theorem visitAll_fails_iff (file scope : String) (registry : Registry) (ds : List Declaration) :
    (registry.visitAll file scope ds).2 ≠ none ↔ ∃ d ∈ ds, d.LacksSide := by
  induction ds generalizing registry with
  | nil => simp [visitAll]
  | cons d ds ih =>
      have hVisit := visit_fails_iff file scope registry d
      simp only [visitAll, List.mem_cons, or_and_right, exists_or, exists_eq_left, ← hVisit]
      rcases registry.visit file scope d with ⟨next, _ | failure⟩
      · simp [ih]
      · simp

/-- A list of files is registered exactly when every map entry of them has both sides. -/
theorem registerAll_succeeds_iff (registry : Registry) (files : List FileDescriptor) :
    (∃ final, registry.registerAll files = .ok final) ↔
      ∀ file ∈ files, ∀ d ∈ file.declarations, ¬ d.LacksSide := by
  induction files generalizing registry with
  | nil => simp [registerAll]
  | cons file files ih =>
      have hFile := visitAll_fails_iff file.name (fileScope file) registry file.declarations
      rw [registerAll, List.forall_mem_cons, register_eq_visitAll]
      rcases hVisited : registry.visitAll file.name (fileScope file) file.declarations with
        ⟨next, _ | failure⟩
      · have hGood : ∀ d ∈ file.declarations, ¬ d.LacksSide := by simpa [hVisited] using hFile
        simp only [ih next]
        exact ⟨fun h => ⟨hGood, h⟩, fun h => h.2⟩
      · obtain ⟨d, hd, hLacks⟩ := hFile.1 (by simp [hVisited])
        simp only [reduceCtorEq, exists_false, false_iff, not_and]
        exact fun h => absurd hLacks (h d hd)

/-- The registry of a list of files, if there is one, has every file registered in turn. -/
theorem registerAll_eq_foldl {registry final : Registry} {files : List FileDescriptor}
    (h : registry.registerAll files = .ok final) :
    final = files.foldl (fun registry file => (registry.register file).1) registry := by
  induction files generalizing registry with
  | nil =>
      cases h
      rfl
  | cons file files ih =>
      rw [registerAll] at h
      rcases hFile : registry.register file with ⟨next, _ | failure⟩
      · rw [hFile] at h
        rw [List.foldl_cons, hFile]
        exact ih h
      · rw [hFile] at h
        cases h

/-! ## What a registry knows -/

/-- A type that is known after a visit was known before, or is the one visited. -/
theorem declared_of_owner?_visit {file scope typeName owner : String} {registry : Registry}
    {d : Declaration} (h : (registry.visit file scope d).1.owner? typeName = some owner) :
    (owner = file ∧ d.isType ∧ d.typeName scope = typeName) ∨
      registry.owner? typeName = some owner := by
  obtain ⟨path, item⟩ := d
  cases item with
  | enum e =>
      simp only [visit, owner?_declare] at h
      split at h
      · exact Or.inl ⟨(Option.some.inj h).symm, rfl, ‹_›⟩
      · exact Or.inr h
  | message m =>
      simp only [visit, owner?_declare] at h
      split at h
      · exact Or.inl ⟨(Option.some.inj h).symm, rfl, ‹_›⟩
      · exact Or.inr h
  | mapEntry m =>
      simp only [visit] at h
      split at h
      · exact Or.inr h
      · exact Or.inr h

theorem declared_of_owner?_visitAll {file scope typeName owner : String} {registry : Registry}
    {ds : List Declaration}
    (h : (registry.visitAll file scope ds).1.owner? typeName = some owner) :
    (owner = file ∧ ∃ d ∈ ds, d.isType ∧ d.typeName scope = typeName) ∨
      registry.owner? typeName = some owner := by
  induction ds generalizing registry with
  | nil => exact Or.inr h
  | cons d ds ih =>
      have hFirst : ∀ next failure, registry.visit file scope d = (next, failure) →
          next.owner? typeName = some owner →
          (owner = file ∧ ∃ d' ∈ d :: ds, d'.isType ∧ d'.typeName scope = typeName) ∨
            registry.owner? typeName = some owner := by
        intro next failure hVisit hNext
        rcases declared_of_owner?_visit (by rw [hVisit]; exact hNext) with ⟨hFile, hd⟩ | hOld
        · exact Or.inl ⟨hFile, d, List.mem_cons_self, hd⟩
        · exact Or.inr hOld
      rw [visitAll] at h
      rcases hVisit : registry.visit file scope d with ⟨next, _ | failure⟩
      · rw [hVisit] at h
        rcases ih h with ⟨hFile, d', hMem, hd'⟩ | hOld
        · exact Or.inl ⟨hFile, d', List.mem_cons_of_mem _ hMem, hd'⟩
        · exact hFirst next _ hVisit hOld
      · rw [hVisit] at h
        exact hFirst next _ hVisit h

theorem declared_of_owner?_registerAll {files : List FileDescriptor}
    {registry final : Registry} (hFinal : registry.registerAll files = .ok final)
    {typeName owner : String} (h : final.owner? typeName = some owner) :
    (∃ file ∈ files, owner = file.name ∧
      ∃ d ∈ file.declarations, d.isType ∧ d.typeName (fileScope file) = typeName) ∨
      registry.owner? typeName = some owner := by
  induction files generalizing registry with
  | nil =>
      cases hFinal
      exact Or.inr h
  | cons file files ih =>
      rw [registerAll, register_eq_visitAll] at hFinal
      rcases hVisited : registry.visitAll file.name (fileScope file) file.declarations with
        ⟨next, _ | failure⟩
      · rw [hVisited] at hFinal
        rcases ih hFinal with ⟨other, hMem, hOther⟩ | hNext
        · exact Or.inl ⟨other, List.mem_cons_of_mem _ hMem, hOther⟩
        · rcases declared_of_owner?_visitAll (by rw [hVisited]; exact hNext) with hd | hOld
          · exact Or.inl ⟨file, List.mem_cons_self, hd⟩
          · exact Or.inr hOld
      · rw [hVisited] at hFinal
        cases hFinal

/-- **A type that the registry of some files knows is declared in the file it names.** -/
theorem declared_of_owner? {files : List FileDescriptor} {registry : Registry}
    (hRegistry : ofFiles files = .ok registry) {typeName owner : String}
    (h : registry.owner? typeName = some owner) :
    ∃ file ∈ files, owner = file.name ∧
      ∃ d ∈ file.declarations, d.isType ∧ d.typeName (fileScope file) = typeName := by
  rcases declared_of_owner?_registerAll hRegistry h with hFile | hEmpty
  · exact hFile
  · rw [owner?_empty] at hEmpty
    cases hEmpty

end Registry

end Protoscribe

import Mathlib.Data.List.Find
import Protoscribe.Proofs.Linking
import Protoscribe.Request

set_option autoImplicit false

/-! # The order of the described files

A request describes its files as a list, but a response does not depend on their order, as long as
files have different names and no two of them declare the same qualified name. Main statement:
`respond_perm`.

Registering a file adds its own declarations to whatever was known before, and these declarations
win (`register_adds`). So two files that declare different names can be registered in either order
(`register_comm`), and the registry of all files is the same in every order (`ofFiles_perm`). After
that, files are only looked up by their names.
-/

namespace Protoscribe

namespace Registry

/-! ## What a file adds -/

/-- The registry `after` knows what `own` knows, and otherwise what `before` knows. -/
structure Adds (own before after : Registry) : Prop where
  owners : ∀ typeName, after.owner? typeName = (own.owner? typeName).or (before.owner? typeName)
  maps : ∀ typeName, after.mapOf? typeName = (own.mapOf? typeName).or (before.mapOf? typeName)

theorem adds_empty (registry : Registry) : Adds empty registry registry where
  owners := by simp
  maps := by simp

theorem Adds.trans {own next before middle after : Registry} (h : Adds own before middle)
    (hNext : Adds next middle after) {both : Registry} (hBoth : Adds next own both) :
    Adds both before after where
  owners typeName := by rw [hNext.owners, h.owners, hBoth.owners, Option.or_assoc]
  maps typeName := by rw [hNext.maps, h.maps, hBoth.maps, Option.or_assoc]

theorem declare_adds (registry : Registry) (file typeName : String) :
    Adds (empty.declare file typeName) registry (registry.declare file typeName) where
  owners other := by
    rw [owner?_declare, owner?_declare]
    split <;> simp
  maps other := by simp

theorem declareMap_adds (registry : Registry) (typeName : String) (entry : MapEntry) :
    Adds (empty.declareMap typeName entry) registry (registry.declareMap typeName entry) where
  owners other := by simp
  maps other := by
    rw [mapOf?_declareMap, mapOf?_declareMap]
    split <;> simp

theorem visit_adds (file scope : String) (registry : Registry) (d : Declaration) :
    Adds (empty.visit file scope d).1 registry (registry.visit file scope d).1 := by
  obtain ⟨path, item⟩ := d
  cases item with
  | enum e => exact declare_adds registry file _
  | message m => exact declare_adds registry file _
  | mapEntry m =>
      simp only [visit]
      cases m.keyValue? with
      | none => exact adds_empty registry
      | some entry => exact declareMap_adds registry _ entry

/-- Whether a declaration fails does not depend on what is known. -/
theorem visit_failure (file scope : String) (registry : Registry) (d : Declaration) :
    (registry.visit file scope d).2 = (empty.visit file scope d).2 := by
  obtain ⟨path, item⟩ := d
  cases item with
  | enum e => rfl
  | message m => rfl
  | mapEntry m =>
      simp only [visit]
      cases m.keyValue? <;> rfl

theorem visitAll_adds (file scope : String) (registry : Registry) (ds : List Declaration) :
    Adds (empty.visitAll file scope ds).1 registry (registry.visitAll file scope ds).1 := by
  induction ds generalizing registry with
  | nil => exact adds_empty registry
  | cons d ds ih =>
      have hFirst := visit_adds file scope registry d
      have hFailure := visit_failure file scope registry d
      rw [visitAll, visitAll]
      rcases hOwn : empty.visit file scope d with ⟨own, _ | failure⟩ <;>
        rcases hNext : registry.visit file scope d with ⟨next, _ | failure⟩ <;>
        rw [hOwn, hNext] at hFirst hFailure
      · exact hFirst.trans (ih next) (ih own)
      · cases hFailure
      · cases hFailure
      · exact hFirst

/-- **Registering a file adds its own declarations**, whatever was known before. -/
theorem register_adds (registry : Registry) (file : FileDescriptor) :
    Adds (empty.register file).1 registry (registry.register file).1 := by
  rw [register_eq_visitAll, register_eq_visitAll]
  exact visitAll_adds file.name (fileScope file) registry file.declarations

/-! ## What a file is known for -/

/-- Something is declared under a name. -/
def Knows (registry : Registry) (typeName : String) : Prop :=
  registry.owner? typeName ≠ none ∨ registry.mapOf? typeName ≠ none

theorem knows_visit {file scope typeName : String} {registry : Registry} {d : Declaration}
    (h : (registry.visit file scope d).1.Knows typeName) :
    d.typeName scope = typeName ∨ registry.Knows typeName := by
  by_cases hName : d.typeName scope = typeName
  · exact Or.inl hName
  · right
    obtain ⟨path, item⟩ := d
    cases item with
    | enum e => simpa [visit, Knows, owner?_declare, hName] using h
    | message m => simpa [visit, Knows, owner?_declare, hName] using h
    | mapEntry m =>
        simp only [visit] at h
        cases hEntry : m.keyValue? with
        | none => simpa [hEntry] using h
        | some entry => simpa [hEntry, Knows, mapOf?_declareMap, hName] using h

theorem knows_visitAll {file scope typeName : String} {registry : Registry}
    {ds : List Declaration} (h : (registry.visitAll file scope ds).1.Knows typeName) :
    typeName ∈ ds.map (Declaration.typeName scope) ∨ registry.Knows typeName := by
  induction ds generalizing registry with
  | nil => exact Or.inr h
  | cons d ds ih =>
      have hFirst : (registry.visit file scope d).1.Knows typeName →
          typeName ∈ (d :: ds).map (Declaration.typeName scope) ∨ registry.Knows typeName := by
        intro hKnown
        rcases knows_visit hKnown with rfl | hOld
        · exact Or.inl List.mem_cons_self
        · exact Or.inr hOld
      rw [visitAll] at h
      rcases hVisit : registry.visit file scope d with ⟨next, _ | failure⟩ <;>
        rw [hVisit] at h hFirst
      · rcases ih h with hRest | hNext
        · exact Or.inl (List.mem_cons_of_mem _ hRest)
        · exact hFirst hNext
      · exact hFirst h

/-- A file is known for the names it declares only. -/
theorem mem_typeNames_of_knows {file : FileDescriptor} {typeName : String}
    (h : (empty.register file).1.Knows typeName) : typeName ∈ file.typeNames := by
  rw [register_eq_visitAll] at h
  rcases knows_visitAll h with hMem | hEmpty
  · exact hMem
  · simp [Knows] at hEmpty

/-! ## Registering in another order -/

/-- **Files that declare different names can be registered in either order.** -/
theorem register_comm (registry : Registry) {a b : FileDescriptor}
    (apart : a.typeNames.Disjoint b.typeNames) :
    ((registry.register a).1.register b).1 = ((registry.register b).1.register a).1 := by
  have hApart : ∀ typeName, (empty.register a).1.Knows typeName →
      ¬ (empty.register b).1.Knows typeName := fun typeName ha hb =>
    apart (mem_typeNames_of_knows ha) (mem_typeNames_of_knows hb)
  -- what one file says comes first, and the other one says nothing
  have hSwap : ∀ {α : Type} {x y : Option α} (z : Option α), (x ≠ none → y = none) →
      y.or (x.or z) = x.or (y.or z) := by
    intro α x y z h
    cases x with
    | none => simp
    | some x => simp [h (by simp)]
  refine ext_lookup (fun typeName => ?_) (fun typeName => ?_)
  · rw [(register_adds (registry.register a).1 b).owners, (register_adds registry a).owners,
      (register_adds (registry.register b).1 a).owners, (register_adds registry b).owners]
    exact hSwap _ fun ha => by_contra fun hb => hApart typeName (Or.inl ha) (Or.inl hb)
  · rw [(register_adds (registry.register a).1 b).maps, (register_adds registry a).maps,
      (register_adds (registry.register b).1 a).maps, (register_adds registry b).maps]
    exact hSwap _ fun ha => by_contra fun hb => hApart typeName (Or.inr ha) (Or.inr hb)

/-- The files can be registered in every order, or in none. -/
theorem ofFiles_succeeds_perm {files others : List FileDescriptor} (perm : files.Perm others) :
    (∃ registry, ofFiles files = .ok registry) ↔ ∃ registry, ofFiles others = .ok registry := by
  rw [ofFiles, ofFiles, registerAll_succeeds_iff, registerAll_succeeds_iff]
  exact ⟨fun h file hFile => h file (perm.symm.subset hFile),
    fun h file hFile => h file (perm.subset hFile)⟩

/-- **The registry of some files is the same in every order of the files.** -/
theorem ofFiles_perm {files others : List FileDescriptor} (perm : files.Perm others)
    (apart : ∀ a ∈ files, ∀ b ∈ files, a ≠ b → a.typeNames.Disjoint b.typeNames)
    {registry : Registry} (h : ofFiles files = .ok registry) : ofFiles others = .ok registry := by
  obtain ⟨other, hOther⟩ := (ofFiles_succeeds_perm perm).1 ⟨registry, h⟩
  have hComm : ∀ a ∈ files, ∀ b ∈ files, ∀ r : Registry,
      ((r.register a).1.register b).1 = ((r.register b).1.register a).1 := by
    intro a ha b hb r
    by_cases hSame : a = b
    · rw [hSame]
    · exact register_comm r (apart a ha b hb hSame)
  -- without failures every file is registered in turn, and neighbours can change places
  rw [hOther, registerAll_eq_foldl h, registerAll_eq_foldl hOther, perm.foldl_eq' hComm]

end Registry

/-! ## Responses -/

/-- In a list of files with different names, the file of a name is the same in every order. -/
theorem find?_name_perm {files others : List FileDescriptor} (perm : files.Perm others)
    (names : (files.map FileDescriptor.name).Nodup) (name : String) :
    files.find? (·.name = name) = others.find? (·.name = name) := by
  refine List.find?_eq_find?_of_perm perm fun file hFile other hOther => ?_
  have hName : file.name = name := by simpa using hFile.2
  have hOtherName : other.name = name := by simpa using hOther.2
  exact List.inj_on_of_nodup_map names hFile.1 hOther.1 (hName.trans hOtherName.symm)

namespace Request

/-- **The order of the described files does not matter.** When files have different names and no
two of them declare the same qualified name, every order of them is registered or none is, and if
they are, then the response is the same in every order, be it the generated files or the text of a
failure. -/
theorem respond_perm (request : Request) {files : List FileDescriptor}
    (perm : request.files.Perm files) (names : (request.files.map FileDescriptor.name).Nodup)
    (apart : ∀ a ∈ request.files, ∀ b ∈ request.files, a ≠ b →
      a.typeNames.Disjoint b.typeNames) :
    ((∃ failure, Registry.ofFiles files = .error failure) ↔
      ∃ failure, Registry.ofFiles request.files = .error failure) ∧
    ((∃ registry, Registry.ofFiles request.files = .ok registry) →
      { request with files }.respond = request.respond) := by
  constructor
  · have hSucceeds := Registry.ofFiles_succeeds_perm perm
    have hFails : ∀ files, (∃ failure, Registry.ofFiles files = .error failure) ↔
        ¬ ∃ registry, Registry.ofFiles files = .ok registry := by
      intro files
      cases Registry.ofFiles files <;> simp
    rw [hFails, hFails, hSucceeds]
  · rintro ⟨registry, hRegistry⟩
    have hOther : Registry.ofFiles files = .ok registry := Registry.ofFiles_perm perm apart hRegistry
    have hFind : ∀ name, { request with files }.find name = request.find name := by
      intro name
      rw [find, find, find?_name_perm perm names]
    have hFile : ∀ name, { request with files }.generateFile registry name =
        request.generateFile registry name := by
      intro name
      rw [generateFile, generateFile, hFind]
      rfl
    have hFiles : { request with files }.generateFiles = request.generateFiles := by
      rw [generateFiles, generateFiles, hRegistry, hOther]
      exact congrArg (fun f => request.wanted.mapM f) (funext hFile)
    rw [respond, respond, hFiles]

/-- A file with a field whose type is declared in another file. -/
def caller : FileDescriptor :=
  { FileDescriptor.blank with
    name := "app/b.proto", dependencies := ["lib/a.proto"],
    messages := [⟨some "Caller",
      [⟨some "inner", some 1, .optional, some 11, some ".p.q.Outer.Inner", "", none, false, false,
        false⟩],
      [], [], [], false⟩] }

/-- A request in which a type is used before the file that declares it is described. -/
def forward : Request := ⟨["app/b.proto", "lib/a.proto"], "", none, [caller, library]⟩

theorem respond_perm_forward :
    forward.files.Perm [library, caller] ∧ (forward.files.map FileDescriptor.name).Nodup ∧
    (∃ registry, Registry.ofFiles forward.files = .ok registry) ∧
    { forward with files := [library, caller] }.respond = forward.respond := by
  have hPerm : forward.files.Perm [library, caller] := List.Perm.swap _ _ _
  have hNames : (forward.files.map FileDescriptor.name).Nodup := by decide
  have hTypes : caller.typeNames.Disjoint library.typeNames := by
    unfold List.Disjoint
    decide +kernel
  have hApart : ∀ a ∈ forward.files, ∀ b ∈ forward.files, a ≠ b →
      a.typeNames.Disjoint b.typeNames := by
    intro a ha b hb hDifferent
    rcases List.mem_pair.1 ha with rfl | rfl <;> rcases List.mem_pair.1 hb with rfl | rfl
    · exact absurd rfl hDifferent
    · exact hTypes
    · exact fun typeName hLibrary hCaller => hTypes hCaller hLibrary
    · exact absurd rfl hDifferent
  have hRegistry : ∃ registry, Registry.ofFiles forward.files = .ok registry := ⟨_, rfl⟩
  exact ⟨hPerm, hNames, hRegistry, (respond_perm forward hPerm hNames hApart).2 hRegistry⟩

end Request

end Protoscribe

import Protoscribe.Proofs.Message.Supported
import Protoscribe.Proofs.Registry.Declarations
import Protoscribe.Proofs.Scope
import Protoscribe.Request

set_option autoImplicit false

/-! # Which requests fail

A request fails exactly when one of four things is wrong with it (`Request.Unsupported`): a map
entry lacks its key or value, a wanted file is not described, or the first file described under a
wanted name has a message or a service that cannot be generated. Otherwise the response has one
file for each wanted name. Main statement: `respond_error_iff`.
-/

namespace Protoscribe

open Checked

/-! ## Services -/

namespace MethodDescriptor

/-- The method lacks its request type or its response type. -/
def Incomplete (m : MethodDescriptor) : Prop := m.inputType? = none ∨ m.outputType? = none

theorem call_succeeds (m : MethodDescriptor) : Succeeds m.call ↔ ¬ m.Incomplete := by
  rw [call, Incomplete]
  cases m.inputType? <;> cases m.outputType? <;> simp

end MethodDescriptor

namespace ServiceDescriptor

/-- The service lacks its name, or one of its methods lacks a type. -/
def Incomplete (s : ServiceDescriptor) : Prop :=
  s.name? = none ∨ ∃ m ∈ s.methods, m.Incomplete

theorem plan_succeeds (s : ServiceDescriptor) : Succeeds s.plan ↔ ¬ s.Incomplete := by
  rw [plan, Incomplete]
  cases s.name? with
  | none => simp
  | some name => simp [mapM_succeeds, MethodDescriptor.call_succeeds]

end ServiceDescriptor

/-! ## Files -/

namespace FileDescriptor

/-- The file has a message or a service that is not generated. -/
def Rejected (registry : Registry) (file : FileDescriptor) : Prop :=
  (∃ m ∈ file.messages, registry.RejectsMessage m) ∨ ∃ s ∈ file.services, s.Incomplete

end FileDescriptor

namespace Scope

theorem allMessageDecls_succeeds {scope : Scope} (flat : scope.registry.Flat)
    (ms : List MessageDescriptor) :
    Succeeds (scope.allMessageDecls ms) ↔ ∀ m ∈ ms, ¬ scope.registry.RejectsMessage m := by
  rw [allMessageDecls, bind_succeeds_of_total fun _ => succeeds_pure _, mapM_succeeds]
  simp only [messageDecls_succeeds flat]

theorem serviceDecls_succeeds (scope : Scope) (settings : Settings) (s : ServiceDescriptor) :
    Succeeds (scope.serviceDecls settings s) ↔ ¬ s.Incomplete := by
  rw [serviceDecls, bind_succeeds_of_total fun _ => succeeds_pure _,
    ServiceDescriptor.plan_succeeds]

theorem allServiceDecls_succeeds (scope : Scope) (settings : Settings)
    (services : List ServiceDescriptor) :
    Succeeds (scope.allServiceDecls settings services) ↔ ∀ s ∈ services, ¬ s.Incomplete := by
  cases services with
  | nil => simp [allServiceDecls]
  | cons s services =>
      rw [allServiceDecls, bind_succeeds_of_total fun _ => succeeds_pure _, mapM_succeeds]
      simp only [serviceDecls_succeeds]

end Scope

namespace FileDescriptor

theorem sourceFile_succeeds {registry : Registry} (flat : registry.Flat) (file : FileDescriptor)
    (settings : Settings) (version : Option Version) :
    Succeeds (file.sourceFile registry settings version) ↔ ¬ file.Rejected registry := by
  have hFlat : (file.scope registry).registry.Flat := by rwa [scope_registry]
  have hMessages := Scope.allMessageDecls_succeeds hFlat file.messages
  have hServices :=
    Scope.allServiceDecls_succeeds (file.scope registry) settings file.services
  rw [scope_registry] at hMessages
  rw [sourceFile, bind_succeeds_of_total fun _ => succeeds_pure _, Scope.fileDecls, scope_file,
    bind_succeeds, Rejected]
  simp only [bind_succeeds_of_total fun _ => succeeds_pure _, hServices, exists_and_right]
  rw [show (∃ decls, (file.scope registry).allMessageDecls file.messages = .ok decls) ↔ _ from
    hMessages]
  simp only [not_or, not_exists, not_and]

end FileDescriptor

/-! ## Requests -/

namespace Request

/-- The request asks for code that cannot be generated. -/
def Unsupported (request : Request) : Prop :=
  (∃ file ∈ request.files, ∃ d ∈ file.declarations, d.LacksSide) ∨
  (∃ name ∈ request.wanted, ∀ file ∈ request.files, file.name ≠ name) ∨
  ∃ registry, Registry.ofFiles request.files = .ok registry ∧
    ∃ name ∈ request.wanted, ∃ file, request.files.find? (·.name = name) = some file ∧
      file.Rejected registry

/-- A file of the response is the module of the first file described under its name. -/
def Answers (request : Request) (registry : Registry) (name : String)
    (generated : GeneratedFile) : Prop :=
  ∃ file source, request.files.find? (·.name = name) = some file ∧
    file.sourceFile registry request.settings request.version = .ok source ∧
    generated = ⟨ModulePath.output name, source.text⟩

theorem find_eq_ok {request : Request} {name : String} {file : FileDescriptor} :
    request.find name = .ok file ↔ request.files.find? (·.name = name) = some file := by
  rw [find]
  cases request.files.find? (·.name = name) <;> simp

theorem generateFile_eq_ok {request : Request} {registry : Registry} {name : String}
    {generated : GeneratedFile} :
    request.generateFile registry name = .ok generated ↔
      request.Answers registry name generated := by
  rw [generateFile, bind_eq_ok, Answers]
  simp only [find_eq_ok, bind_eq_ok, pure_eq_ok]
  constructor
  · rintro ⟨file, hFile, source, hSource, rfl⟩
    have hName : file.name = name := by simpa using List.find?_some hFile
    exact ⟨file, source, hFile, hSource, by rw [hName]⟩
  · rintro ⟨file, source, hFile, hSource, rfl⟩
    have hName : file.name = name := by simpa using List.find?_some hFile
    exact ⟨file, hFile, source, hSource, by rw [hName]⟩

theorem names_of_answers {request : Request} {registry : Registry} {names : List String}
    {files : List GeneratedFile} (h : List.Forall₂ (request.Answers registry) names files) :
    files.map GeneratedFile.name = names.map ModulePath.output := by
  induction h with
  | nil => rfl
  | cons hFirst _ ih =>
      obtain ⟨_, _, _, _, rfl⟩ := hFirst
      simp only [List.map_cons, ih]

theorem generateFile_succeeds {request : Request} {registry : Registry} (flat : registry.Flat)
    {name : String} :
    Succeeds (request.generateFile registry name) ↔
      (∃ file ∈ request.files, file.name = name) ∧
        ∀ file, request.files.find? (·.name = name) = some file → ¬ file.Rejected registry := by
  rw [generateFile, bind_succeeds]
  simp only [bind_succeeds_of_total fun _ => succeeds_pure _, find_eq_ok,
    FileDescriptor.sourceFile_succeeds flat]
  constructor
  · rintro ⟨file, hFile, hGood⟩
    refine ⟨⟨file, List.mem_of_find?_eq_some hFile, by simpa using List.find?_some hFile⟩, ?_⟩
    intro other hOther
    rw [hFile] at hOther
    cases hOther
    exact hGood
  · rintro ⟨⟨file, hMem, hName⟩, hGood⟩
    have hSome : (request.files.find? (·.name = name)).isSome := by
      rw [List.find?_isSome]
      exact ⟨file, hMem, by simpa using hName⟩
    obtain ⟨first, hFirst⟩ := Option.isSome_iff_exists.1 hSome
    exact ⟨first, hFirst, hGood first hFirst⟩

theorem generateFiles_succeeds {request : Request}
    (flat : ∀ registry, Registry.ofFiles request.files = .ok registry → registry.Flat) :
    Succeeds request.generateFiles ↔ ¬ request.Unsupported := by
  have hRegistered : Succeeds (Registry.ofFiles request.files) ↔
      ∀ file ∈ request.files, ∀ d ∈ file.declarations, ¬ d.LacksSide :=
    Registry.registerAll_succeeds_iff _ _
  rw [generateFiles, bind_succeeds]
  simp only [Unsupported, not_or, not_exists, not_and, ne_eq, not_forall, not_not]
  rw [← hRegistered]
  constructor
  · rintro ⟨registry, hRegistry, h⟩
    have hFile := fun name hName =>
      (generateFile_succeeds (flat registry hRegistry)).1 (mapM_succeeds.1 h name hName)
    refine ⟨⟨registry, hRegistry⟩, fun name hName => ?_, ?_⟩
    · obtain ⟨⟨file, hMem, hEq⟩, -⟩ := hFile name hName
      exact ⟨file, hMem, hEq⟩
    · rintro other hOther name hName file hFind
      rw [hRegistry] at hOther
      cases hOther
      exact (hFile name hName).2 file hFind
  · rintro ⟨⟨registry, hRegistry⟩, hKnown, hGood⟩
    refine ⟨registry, hRegistry, mapM_succeeds.2 fun name hName => ?_⟩
    obtain ⟨file, hMem, hEq⟩ := hKnown name hName
    exact (generateFile_succeeds (flat registry hRegistry)).2
      ⟨⟨file, hMem, hEq⟩, hGood registry hRegistry name hName⟩

/-- **A request fails exactly when it asks for something unsupported, and then gives no file.**
Otherwise the response has one file for each wanted name, in their order: the module of the first
file described under that name. No key and no value of a map is to be typed by a map entry. -/
theorem respond_error_iff (request : Request)
    (flat : ∀ registry, Registry.ofFiles request.files = .ok registry → registry.Flat) :
    (request.respond.error ≠ none ↔ request.Unsupported) ∧
    (request.respond.error ≠ none → request.respond.files = []) ∧
    (request.respond.error = none →
      request.respond.files.map GeneratedFile.name = request.wanted.map ModulePath.output ∧
      ∃ registry, Registry.ofFiles request.files = .ok registry ∧
        List.Forall₂ (request.Answers registry) request.wanted request.respond.files) := by
  have hIff := generateFiles_succeeds flat
  rw [respond]
  cases hFiles : request.generateFiles with
  | error failure =>
      rw [hFiles] at hIff
      have hUnsupported : request.Unsupported := by simpa using hIff
      simp [hUnsupported]
  | ok files =>
      have hSupported : ¬ request.Unsupported := hIff.1 ⟨files, hFiles⟩
      obtain ⟨registry, hRegistry, h⟩ := bind_eq_ok.1 hFiles
      have hAnswers : List.Forall₂ (request.Answers registry) request.wanted files :=
        (mapM_eq_ok.1 h).imp fun _ _ => generateFile_eq_ok.1
      refine ⟨by simp [hSupported], by simp, fun _ => ⟨?_, registry, hRegistry, hAnswers⟩⟩
      exact names_of_answers hAnswers

/-- An integer key of a map. -/
def intKey : FieldDescriptor :=
  ⟨some "key", some 1, .optional, some 5, none, "", none, false, false, false⟩

/-- A group as the value of a map, handed over as a string: it has a type but no routine. -/
def groupValue : FieldDescriptor :=
  ⟨some "value", some 2, .optional, some 10, none, "", none, false, false, true⟩

/-- A request for a message with a map whose values are groups. -/
def groupMap : Request where
  wanted := ["a.proto"]
  parameter := ""
  version := none
  files := [{ FileDescriptor.blank with
    name := "a.proto"
    messages := [⟨some "M",
      [⟨some "f", some 1, .repeated, some 11, some ".M.E", "", none, false, false, false⟩],
      [⟨some "E", [intKey, groupValue], [], [], [], true⟩], [], [], false⟩] }]

/-- What the files of the request declare. -/
def groupMapRegistry : Registry :=
  (Registry.empty.declare "a.proto" ".M").declareMap ".M.E" ⟨intKey, groupValue⟩

theorem respond_error_groupMap :
    (∀ registry, Registry.ofFiles groupMap.files = .ok registry → registry.Flat) ∧
    groupMap.respond.error ≠ none ∧ groupMap.respond.files = [] := by
  have hRegistry : Registry.ofFiles groupMap.files = .ok groupMapRegistry := rfl
  have hEntry : groupMapRegistry.mapOf? ".M.E" = some ⟨intKey, groupValue⟩ := by
    rw [groupMapRegistry, Registry.mapOf?_declareMap, if_pos rfl]
  have hFlat : ∀ registry, Registry.ofFiles groupMap.files = .ok registry → registry.Flat := by
    intro registry h
    rw [hRegistry] at h
    cases h
    intro typeName entry hKnown
    rw [groupMapRegistry, Registry.mapOf?_declareMap, Registry.mapOf?_declare,
      Registry.mapOf?_empty] at hKnown
    split at hKnown
    · cases hKnown
      exact ⟨rfl, rfl⟩
    · cases hKnown
  have hUnsupported : groupMap.Unsupported := by
    refine Or.inr (Or.inr ⟨_, hRegistry, "a.proto", by decide, _, rfl, Or.inl ⟨_,
      List.mem_cons_self, .field List.mem_cons_self (Or.inr ⟨_, hEntry, Or.inr ?_⟩)⟩⟩)
    decide
  obtain ⟨hError, hFiles, -⟩ := respond_error_iff groupMap hFlat
  exact ⟨hFlat, hError.2 hUnsupported, hFiles (hError.2 hUnsupported)⟩

end Request

end Protoscribe

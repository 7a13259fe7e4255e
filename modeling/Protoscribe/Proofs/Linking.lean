import Protoscribe.Proofs.Message.Lookup
import Protoscribe.Proofs.ModulePath
import Protoscribe.Proofs.Scope
import Protoscribe.Proofs.Text.Lines

set_option autoImplicit false

/-! # References to types of other files

A reference to a type of an imported file is an identifier and a dotted path. Main statement:
`reference_links`, the identifier is that of an import, the module of the import is the module of
the file that declares the type, and in that module the dotted path leads to the class or the enum
emitted for the type.

Three texts have to fit together for this. The qualified name of a type is a dot and then the
parts of the package and of its path (`typeName_eq`), the reference puts the identifier in front of
these parts (`path_of_imported`, `segments_of_imported`), and the parts are the namespaces of the
module (`finds_fileDecls`, `lookup_inPackage`).
-/

namespace Protoscribe

open TypeScript Checked

/-! ## Files that fit together -/

/-- A name that is one part of a dotted path. -/
def Simple (name : String) : Prop := name ≠ "" ∧ '.' ∉ name.toList

instance (name : String) : Decidable (Simple name) := inferInstanceAs (Decidable (_ ∧ _))

/-- The parts of the package of a file. -/
def FileDescriptor.packageParts (file : FileDescriptor) : List String :=
  if file.package = "" then [] else Text.segments '.' file.package

/-- The qualified names that a file declares. -/
def FileDescriptor.typeNames (file : FileDescriptor) : List String :=
  file.declarations.map (Declaration.typeName (Registry.fileScope file))

/-- Files whose names and declarations can be told apart. -/
@[mk_iff]
structure Linkable (files : List FileDescriptor) : Prop where
  fileNames : (files.map FileDescriptor.name).Nodup
  typeNames : (files.flatMap FileDescriptor.typeNames).Nodup
  simpleNames : ∀ file ∈ files, ∀ d ∈ file.declarations, ∀ name ∈ d.path, Simple name
  simpleParts : ∀ file ∈ files, ∀ part ∈ file.packageParts, Simple part
  paths : ∀ file ∈ files, ModulePath.PlainPath file.name

instance (files : List FileDescriptor) : Decidable (Linkable files) :=
  decidable_of_iff' _ (linkable_iff files)

/-! ## Qualified names -/

theorem foldl_qualified (path : List String) : ∀ {parts : List String}, parts ≠ [] →
    path.foldl qualified ("." ++ String.intercalate "." parts) =
      "." ++ String.intercalate "." (parts ++ path) := by
  induction path with
  | nil => simp
  | cons name path ih =>
      intro parts hParts
      have hStep : qualified ("." ++ String.intercalate "." parts) name =
          "." ++ String.intercalate "." (parts ++ [name]) := by
        rw [String.intercalate_append_of_ne_nil hParts (by simp), String.intercalate_singleton,
          qualified, String.append_assoc, String.append_assoc, String.append_assoc]
      rw [List.foldl_cons, hStep, ih (by simp), List.append_assoc, List.singleton_append]

theorem path_ne_nil {file : FileDescriptor} {d : Declaration} (h : d ∈ file.declarations) :
    d.path ≠ [] := by
  obtain ⟨name, rest, hPath, -⟩ :=
    rooted_append (rooted_enums file.enums) (rooted_messages file.messages) d h
  simp [hPath]

/-- The qualified name of a type: a dot, and the parts of the package and of its path. -/
theorem typeName_eq {file : FileDescriptor} {d : Declaration} (h : d ∈ file.declarations) :
    d.typeName (Registry.fileScope file) =
      "." ++ String.intercalate "." (file.packageParts ++ d.path) := by
  obtain ⟨name, rest, hPath⟩ := List.exists_cons_of_ne_nil (path_ne_nil h)
  rw [Declaration.typeName, Registry.fileScope, FileDescriptor.packageParts, hPath]
  split
  · rw [List.foldl_cons, List.nil_append,
      show qualified "" name = "." ++ String.intercalate "." [name] by
        rw [qualified, String.intercalate_singleton, String.empty_append],
      foldl_qualified rest (by simp), List.singleton_append]
  · have hPackage : "." ++ file.package =
        "." ++ String.intercalate "." (Text.segments '.' file.package) := by
      rw [show "." = String.singleton '.' from rfl, Text.join_segments]
    rw [hPackage, foldl_qualified (name :: rest) (Text.segments_ne_nil _ _)]

/-- Only the first dot of a qualified name is dropped: the part after it is not empty. -/
theorem dropLeading_dot {parts : List String} (hParts : parts ≠ [])
    (hSimple : ∀ part ∈ parts, Simple part) :
    Text.dropLeading '.' ("." ++ String.intercalate "." parts) =
      String.intercalate "." parts := by
  obtain ⟨first, rest, rfl⟩ := List.exists_cons_of_ne_nil hParts
  obtain ⟨hFirst, hDot⟩ := hSimple first List.mem_cons_self
  obtain ⟨c, cs, hChars⟩ := List.exists_cons_of_ne_nil (l := first.toList)
    (fun h => hFirst (String.toList_eq_nil_iff.1 h))
  have hStart : ∃ tail, (String.intercalate "." (first :: rest)).toList = c :: tail := by
    cases rest with
    | nil => exact ⟨cs, by rw [String.intercalate_singleton, hChars]⟩
    | cons second rest =>
        exact ⟨_, by
          rw [String.intercalate_cons_cons, String.toList_append, String.toList_append, hChars,
            List.cons_append, List.cons_append]⟩
  obtain ⟨tail, hTail⟩ := hStart
  have hc : c ≠ '.' := by
    rintro rfl
    exact hDot (by simp [hChars])
  apply String.toList_inj.1
  rw [Text.dropLeading, String.toList_ofList, String.toList_append, hTail]
  simp [hc]

/-- The parts of a reference are the parts of the package and the path of the type. -/
theorem segments_path {parts : List String} (hParts : parts ≠ [])
    (hSimple : ∀ part ∈ parts, Simple part) :
    Text.segments '.' (String.intercalate "." parts) = parts :=
  Text.segments_intercalate (fun part h => (hSimple part h).2) hParts

/-! ## The declarations of a file -/

theorem Linkable.distinctPaths {files : List FileDescriptor} (linkable : Linkable files)
    {file : FileDescriptor} (hFile : file ∈ files) : DistinctPaths file.declarations := by
  have hNames : file.typeNames.Nodup :=
    (List.nodup_flatMap.1 linkable.typeNames).1 file hFile
  rw [FileDescriptor.typeNames, show Declaration.typeName (Registry.fileScope file) =
    (fun path => path.foldl qualified (Registry.fileScope file)) ∘ Declaration.path from rfl,
    ← List.map_map] at hNames
  exact hNames.of_map _

theorem finds_messages {scope : Scope} {ms : List MessageDescriptor} {decls : List (List Decl)}
    (h : ms.mapM scope.messageDecls = .ok decls) (hDistinct : DistinctPaths (messagesDeclarations ms)) :
    scope.Finds (messagesDeclarations ms) decls.flatten := by
  have hAll := mapM_eq_ok.1 h
  clear h
  induction hAll with
  | nil => simp [Scope.Finds, messagesDeclarations]
  | cons hFirst _ ih =>
      rw [messagesDeclarations] at hDistinct ⊢
      obtain ⟨hHead, hTail, -⟩ := distinctPaths_append.1 hDistinct
      rw [List.flatten_cons]
      exact (finds_messageDecls _ hFirst hHead).append (ih hTail) (namesDeclared_message hFirst)
        (rooted_messages _) hDistinct

/-- The path of every type of a file leads to what is emitted for it. -/
theorem finds_fileDecls {scope : Scope} {settings : Settings} {decls : List Decl}
    (h : scope.fileDecls settings = .ok decls) (hDistinct : DistinctPaths scope.file.declarations) :
    scope.Finds scope.file.declarations decls := by
  obtain ⟨messages, hMessages, h⟩ := bind_eq_ok.1 h
  obtain ⟨services, -, h⟩ := bind_eq_ok.1 h
  obtain rfl := pure_eq_ok.1 h
  obtain ⟨groups, hGroups, hMessages⟩ := bind_eq_ok.1 hMessages
  obtain rfl := pure_eq_ok.1 hMessages
  obtain ⟨hEnums, hRest, -⟩ := distinctPaths_append.1 hDistinct
  exact ((finds_enums hEnums).append (finds_messages hGroups hRest)
    (namesDeclared_enums _) (rooted_messages _) hDistinct).append_right services

/-- What is emitted for services: interfaces, and a handler and a stub for each of them. -/
theorem mem_allServiceDecls {scope : Scope} {settings : Settings}
    {services : List ServiceDescriptor} {decls : List Decl}
    (h : scope.allServiceDecls settings services = .ok decls) {d : Decl} (hd : d ∈ decls) :
    (∃ decl, d = .callable decl) ∨
      ∃ plan, d = Handler.decl scope plan ∨ d = Stub.decl scope settings plan := by
  cases services with
  | nil =>
      obtain rfl := pure_eq_ok.1 h
      cases hd
  | cons service services =>
      obtain ⟨groups, hGroups, h⟩ := bind_eq_ok.1 h
      obtain rfl := pure_eq_ok.1 h
      rcases List.mem_append.1 hd with hd | hd
      · left
        simp only [Overloads.all, List.mem_cons, List.not_mem_nil, or_false] at hd
        rcases hd with rfl | rfl | rfl | rfl | rfl <;> exact ⟨_, rfl⟩
      · right
        obtain ⟨group, hGroup, hd⟩ := List.mem_flatten.1 hd
        obtain ⟨service, -, hService⟩ := exists_input hGroups hGroup
        obtain ⟨plan, -, hService⟩ := bind_eq_ok.1 hService
        obtain rfl := pure_eq_ok.1 hService
        exact ⟨plan, by simpa using hd⟩

/-- The declarations of a file stand in the namespaces of its package, unless there are none. -/
theorem inPackage_cases (file : FileDescriptor) (decls : List Decl) :
    (file.packageParts = [] ∨ decls = []) ∧ inPackage file.package decls = decls ∨
      ∃ outer inner, file.packageParts = outer :: inner ∧
        inPackage file.package decls = [Decl.nest outer inner decls] := by
  rw [FileDescriptor.packageParts, inPackage]
  by_cases hPackage : file.package = ""
  · simp [hPackage]
  · cases decls with
    | nil => simp
    | cons first others =>
        right
        rw [if_neg hPackage, if_neg (by simpa using hPackage), Decl.dotted]
        cases hParts : Text.segments '.' file.package with
        | nil => exact absurd hParts (Text.segments_ne_nil _ _)
        | cons outer inner => exact ⟨outer, inner, rfl, rfl⟩

/-- The package is a prefix of every path in a module. -/
theorem lookup_inPackage {file : FileDescriptor} {path : List String} {decls : List Decl}
    {decl : Decl} (hPath : path ≠ []) (h : lookup path decls = some decl) :
    lookup (file.packageParts ++ path) (inPackage file.package decls) = some decl := by
  obtain ⟨hNone, hDecls⟩ | ⟨outer, inner, hParts, hDecls⟩ := inPackage_cases file decls
  · rw [hDecls]
    rcases hNone with hParts | rfl
    · rwa [hParts, List.nil_append]
    · obtain ⟨name, rest, rfl⟩ := List.exists_cons_of_ne_nil hPath
      cases rest <;> simp [lookup] at h
  · rw [hDecls, hParts, List.cons_append, lookup_nest hPath, h]

/-- In the module of a file, the path of every type of the file leads to what is emitted for it. -/
theorem finds_sourceFile {file : FileDescriptor} {registry : Registry} {settings : Settings}
    {version : Option Version} {source : SourceFile}
    (hSource : file.sourceFile registry settings version = .ok source)
    (hDistinct : DistinctPaths file.declarations) {d : Declaration} (hd : d ∈ file.declarations)
    (hType : d.isType) :
    ∃ decl, (file.scope registry).Emits d.item decl ∧
      lookup (file.packageParts ++ d.path) source.body = some decl := by
  obtain ⟨decls, hDecls, hSource⟩ := bind_eq_ok.1 hSource
  obtain rfl := pure_eq_ok.1 hSource
  have hFinds := finds_fileDecls hDecls (by rwa [FileDescriptor.scope_file])
  rw [FileDescriptor.scope_file] at hFinds
  obtain ⟨decl, hEmits, hFound⟩ := hFinds d hd hType
  exact ⟨decl, hEmits, lookup_inPackage (path_ne_nil hd) hFound⟩

/-! ## References -/

theorem simple_importName (index : Nat) : Simple (importName index) := by
  constructor
  · simp [importName]
  · intro h
    rw [importName, String.toList_append, List.mem_append] at h
    rcases h with hName | hNumber
    · revert hName
      decide
    · rcases @Text.mem_toString (index + 1 : Nat) _ hNumber with hDigit | hSign
      · revert hDigit
        decide
      · cases hSign

/-- The namespaces and the names on the way to a type are parts of a dotted path. -/
theorem Linkable.simplePlace {files : List FileDescriptor} (linkable : Linkable files)
    {file : FileDescriptor} (hFile : file ∈ files) {d : Declaration} (hd : d ∈ file.declarations) :
    ∀ part ∈ file.packageParts ++ d.path, Simple part := by
  intro part h
  rcases List.mem_append.1 h with h | h
  · exact linkable.simpleParts file hFile part h
  · exact linkable.simpleNames file hFile d hd part h

section Imported

variable {importer dependency : FileDescriptor} {registry : Registry} {identifier : String}
  {d : Declaration} (hd : d ∈ dependency.declarations)
  (hSimple : ∀ part ∈ dependency.packageParts ++ d.path, Simple part)
  (hOwner : registry.owner? (d.typeName (Registry.fileScope dependency)) = some dependency.name)
  (hIdentifier : (importer.scope registry).identifier? dependency.name = some identifier)

include hd hSimple hOwner hIdentifier

/-- A type of an imported file is referred to by the identifier of the import and its place. -/
theorem path_of_imported :
    (importer.scope registry).path (d.typeName (Registry.fileScope dependency)) =
      identifier ++ "." ++ String.intercalate "." (dependency.packageParts ++ d.path) := by
  have hParts : dependency.packageParts ++ d.path ≠ [] := by simp [path_ne_nil hd]
  rw [Scope.path, FileDescriptor.scope_registry, hOwner, Option.bind_some, hIdentifier]
  simp only [typeName_eq hd, dropLeading_dot hParts hSimple]

theorem segments_of_imported (hName : Simple identifier) :
    Text.segments '.'
        ((importer.scope registry).path (d.typeName (Registry.fileScope dependency))) =
      identifier :: (dependency.packageParts ++ d.path) := by
  have hParts : dependency.packageParts ++ d.path ≠ [] := by simp [path_ne_nil hd]
  have hDot : "." = String.singleton '.' := rfl
  rw [path_of_imported hd hSimple hOwner hIdentifier, String.append_assoc]
  nth_rewrite 1 [hDot]
  rw [Text.segments_append, Text.segments_eq_singleton hName.2, segments_path hParts hSimple,
    List.singleton_append]

end Imported

/-- **A reference to a type of an imported file links.** It is an identifier and a path; the
identifier is imported from a module that, seen from the directory of the importing module, is the
module of the file that declares the type; and in that module the path leads to the class or the
enum that is emitted for the type. -/
theorem reference_links {files : List FileDescriptor} {registry : Registry}
    (linkable : Linkable files) (hRegistry : Registry.ofFiles files = .ok registry)
    {importer dependency : FileDescriptor} (hDependency : dependency ∈ files)
    (hImports : dependency.name ∈ importer.dependencies)
    {settings : Settings} {version : Option Version} {source target : SourceFile}
    (hSource : importer.sourceFile registry settings version = .ok source)
    (hTarget : dependency.sourceFile registry settings version = .ok target)
    {typeName : String} (hOwner : registry.owner? typeName = some dependency.name) :
    ∃ identifier module path,
      (importer.scope registry).path typeName = identifier ++ "." ++ path ∧
      ⟨identifier, module⟩ ∈ source.imports ∧
      (∃ place, ModulePath.resolve (ModulePath.directory (ModulePath.output importer.name)) module =
          some place ∧ String.intercalate "/" place ++ ".ts" = ModulePath.output dependency.name) ∧
      ∃ d ∈ dependency.declarations, d.isType ∧
        d.typeName (Registry.fileScope dependency) = typeName ∧
        ∃ decl, (dependency.scope registry).Emits d.item decl ∧
          lookup (Text.segments '.' path) target.body = some decl := by
  obtain ⟨owner, hOwnerMem, hName, d, hd, hType, rfl⟩ :=
    Registry.declared_of_owner? hRegistry hOwner
  obtain rfl : dependency = owner :=
    List.inj_on_of_nodup_map linkable.fileNames hDependency hOwnerMem hName
  obtain ⟨identifier, hIdentifier, hImport⟩ := importer.identifier_of_dependency registry hImports
  have hParts : dependency.packageParts ++ d.path ≠ [] := by simp [path_ne_nil hd]
  have hSimple := linkable.simplePlace hDependency hd
  refine ⟨identifier, ModulePath.relative importer.name dependency.name,
    String.intercalate "." (dependency.packageParts ++ d.path), ?_, ?_, ?_, d, hd, hType, rfl, ?_⟩
  · exact path_of_imported hd hSimple hOwner hIdentifier
  · obtain ⟨decls, -, hSource⟩ := bind_eq_ok.1 hSource
    obtain rfl := pure_eq_ok.1 hSource
    exact List.mem_append_left _ hImport
  · refine ⟨_, ModulePath.resolve_relative (linkable.paths dependency hDependency), ?_⟩
    rw [show "/" = String.singleton '/' from rfl, Text.join_segments, ModulePath.output]
  · obtain ⟨decl, hEmits, hFound⟩ :=
      finds_sourceFile hTarget (linkable.distinctPaths hDependency) hd hType
    exact ⟨decl, hEmits, by rw [segments_path hParts hSimple, hFound]⟩

/-- A message without fields in which a message and an enum are declared. -/
def outer : MessageDescriptor :=
  ⟨some "Outer", [], [⟨some "Inner", [], [], [], [], false⟩], [⟨"Kind", []⟩], [], false⟩

/-- A file with a dotted package. -/
def library : FileDescriptor :=
  { FileDescriptor.blank with name := "lib/a.proto", package := "p.q", messages := [outer] }

/-- A file in another directory that imports the library twice. -/
def user : FileDescriptor :=
  { FileDescriptor.blank with
    name := "app/b.proto", dependencies := ["lib/a.proto", "lib/a.proto"] }

theorem linkable_library_user : Linkable [library, user] := by decide +kernel

theorem reference_links_nested :
    ∃ registry source target identifier module path decl,
      Registry.ofFiles [library, user] = .ok registry ∧
      user.sourceFile registry .standard none = .ok source ∧
      library.sourceFile registry .standard none = .ok target ∧
      (user.scope registry).path ".p.q.Outer.Inner" = identifier ++ "." ++ path ∧
      ⟨identifier, module⟩ ∈ source.imports ∧
      lookup (Text.segments '.' path) target.body = some decl := by
  let registry : Registry := ((Registry.empty.declare "lib/a.proto" ".p.q.Outer").declare
    "lib/a.proto" ".p.q.Outer.Kind").declare "lib/a.proto" ".p.q.Outer.Inner"
  have hRegistry : Registry.ofFiles [library, user] = .ok registry := rfl
  have hOwner : registry.owner? ".p.q.Outer.Inner" = some library.name := by
    rw [Registry.owner?_declare, if_pos rfl]
    rfl
  obtain ⟨source, hSource⟩ :
      ∃ source, user.sourceFile registry .standard none = .ok source := ⟨_, rfl⟩
  obtain ⟨target, hTarget⟩ :
      ∃ target, library.sourceFile registry .standard none = .ok target := ⟨_, rfl⟩
  obtain ⟨identifier, module, path, hPath, hImport, -, d, -, -, -, decl, -, hFound⟩ :=
    reference_links linkable_library_user hRegistry List.mem_cons_self List.mem_cons_self hSource
      hTarget hOwner
  exact ⟨registry, source, target, identifier, module, path, decl, hRegistry, hSource, hTarget,
    hPath, hImport, hFound⟩

end Protoscribe

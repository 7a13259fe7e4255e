import Mathlib.Data.List.Pairwise
import Protoscribe.Proofs.Evaluation.Program
import Protoscribe.Proofs.Registry.Emitted
import Protoscribe.Proofs.Registry.Visits

set_option autoImplicit false

/-! # What the paths in a class reach

The site of a type is where a file of the program declares the type (`site?_eq_some_iff`), and the
class emitted for it is found there (`class_at_site`). In the class, its name always reaches it
(`reach_own`), and the identifier of the runtime reaches no class (`reach_runtime`). The path of a
type of an imported file reaches the type (`reach_imported`), and the path of a type of the same
file does so exactly when no message around the class hides it (`reach_path_iff`). Main statement:
`reach_iff`, which puts the last two together.
-/

namespace Protoscribe

open TypeScript Evaluation Checked

/-! ## Following a path from a namespace -/

namespace TypeScript

theorem lookup_nil {path : List String} (hPath : path ≠ []) : lookup path [] = none := by
  obtain ⟨name, rest, rfl⟩ := List.exists_cons_of_ne_nil hPath
  exact lookup_eq_none (by simp)

/-- The first step of a path goes into the namespaces of its first name. -/
theorem lookup_inside (name : String) {path : List String} (hPath : path ≠ []) (decls : List Decl) :
    lookup (name :: path) decls = lookup path (inside name decls) := by
  obtain ⟨next, rest, rfl⟩ := List.exists_cons_of_ne_nil hPath
  induction decls with
  | nil => rw [lookup_nil (by simp), inside, List.flatMap_nil, lookup_nil hPath]
  | cons d decls ih =>
      have hFirst : lookup (name :: next :: rest) [d] =
          lookup (next :: rest) ((d.body? name).getD []) := by
        cases hBody : d.body? name with
        | none => simp [lookup, hBody, lookup_nil hPath]
        | some body => simp [lookup, hBody]
      have hInside : inside name (d :: decls) = (d.body? name).getD [] ++ inside name decls :=
        List.flatMap_cons
      rw [hInside, lookup_append, ← ih, ← hFirst, ← lookup_append, List.singleton_append]

theorem lookup_within {path : List String} (hPath : path ≠ []) (outer : List String)
    (decls : List Decl) : lookup (outer ++ path) decls = lookup path (within outer decls) := by
  induction outer generalizing decls with
  | nil => rfl
  | cons name outer ih =>
      rw [List.cons_append, lookup_inside name (by simp [hPath]), ih, within]

/-- What a path refers to is found at the place that it refers to. -/
theorem lookup_of_refer {decls : List Decl} {around path place : List String} {decl : Decl}
    (h : refer decls around path = some (place, decl)) : lookup place decls = some decl := by
  cases path with
  | nil => cases h
  | cons first rest =>
      obtain ⟨outer, -, h⟩ := Option.bind_eq_some_iff.1 h
      obtain ⟨found, hFound, hPair⟩ := Option.map_eq_some_iff.1 h
      obtain ⟨rfl, rfl⟩ := Prod.mk.inj hPair
      rw [lookup_within (by simp), hFound]

end TypeScript

/-! ## Declarations -/

/-- The path of a message ends with the name of the message. -/
theorem path_of_message {enums : List EnumDescriptor} {messages : List MessageDescriptor}
    {d : Declaration} (h : OutsideMapEntries enums messages d) {m : MessageDescriptor}
    (hItem : d.item = .message m) : d.path = d.path.dropLast ++ [m.name] := by
  induction h with
  | enum => cases hItem
  | message =>
      cases hItem
      rfl
  | @nested _ _ outer d _ _ _ ih =>
      have hPath := ih hItem
      have hNotEmpty : d.path ≠ [] := fun h => by simp [h] at hPath
      rw [Declaration.under, List.dropLast_cons_of_ne_nil hNotEmpty, List.cons_append, ← hPath]

/-- Declarations of one qualified name are the same declaration of the same file. -/
theorem Linkable.declaration_eq {files : List FileDescriptor} (linkable : Linkable files)
    {file other : FileDescriptor} (hFile : file ∈ files) (hOther : other ∈ files)
    {d e : Declaration} (hd : d ∈ file.declarations) (he : e ∈ other.declarations)
    (hName : d.typeName (Registry.fileScope file) = e.typeName (Registry.fileScope other)) :
    file = other ∧ d = e := by
  obtain ⟨hEach, hApart⟩ := List.nodup_flatMap.1 linkable.typeNames
  obtain rfl : file = other := by
    by_contra hDifferent
    have : Std.Symm (Function.onFun List.Disjoint FileDescriptor.typeNames) :=
      ⟨fun _ _ h _ hFirst hSecond => h hSecond hFirst⟩
    have hDisjoint := hApart.forall hFile hOther hDifferent
    exact hDisjoint (List.mem_map_of_mem hd) (hName ▸ List.mem_map_of_mem he)
  exact ⟨rfl, List.inj_on_of_nodup_map (hEach file hFile) hd he hName⟩

/-- A declared type belongs to the file that declares it. -/
theorem Linkable.owner?_eq {files : List FileDescriptor} (linkable : Linkable files)
    {registry : Registry} (hRegistry : Registry.ofFiles files = .ok registry)
    {file : FileDescriptor} (hFile : file ∈ files) {d : Declaration} (hd : d ∈ file.declarations)
    (hType : d.isType) :
    registry.owner? (d.typeName (Registry.fileScope file)) = some file.name := by
  obtain ⟨owner, hOwner⟩ := Option.isSome_iff_exists.1
    (Registry.owner?_isSome hRegistry hFile hd hType)
  obtain ⟨other, hOther, rfl, e, he, -, hSame⟩ := Registry.declared_of_owner? hRegistry hOwner
  obtain ⟨rfl, -⟩ := linkable.declaration_eq hOther hFile he hd hSame
  exact hOwner

/-- The class at the place of a message means the message. -/
theorem declarationMeaning_message {file : FileDescriptor}
    (hDistinct : DistinctPaths file.declarations) {path : List String} {m : MessageDescriptor}
    (hd : ⟨path, .message m⟩ ∈ file.declarations) (decl : ClassDecl) :
    declarationMeaning file (file.packageParts ++ path) (.classDecl decl) =
      .message (Declaration.typeName (Registry.fileScope file) ⟨path, .message m⟩) := by
  have hFound : (file.declarations.find? fun d =>
      d.isType && file.packageParts ++ d.path = file.packageParts ++ path) =
        some ⟨path, .message m⟩ := by
    refine find?_eq_some_of_only hd (by simp [Declaration.isType]) fun other hOther h => ?_
    rw [Bool.and_eq_true, decide_eq_true_eq] at h
    exact List.inj_on_of_nodup_map hDistinct hOther hd (List.append_cancel_left h.2)
  rw [declarationMeaning, hFound]

/-- Whatever means a message is found at the place of the message. -/
theorem exists_of_declarationMeaning {file : FileDescriptor} {place : List String} {decl : Decl}
    {typeName : String} (h : declarationMeaning file place decl = .message typeName) :
    ∃ path m, ⟨path, .message m⟩ ∈ file.declarations ∧ place = file.packageParts ++ path ∧
      Declaration.typeName (Registry.fileScope file) ⟨path, .message m⟩ = typeName := by
  cases decl with
  | classDecl decl =>
      rw [declarationMeaning] at h
      split at h
      · rename_i path m hFound
        have hPlace := List.find?_some hFound
        rw [Bool.and_eq_true, decide_eq_true_eq] at hPlace
        exact ⟨path, m, List.mem_of_find?_eq_some hFound, hPlace.2.symm, Meaning.message.inj h⟩
      · cases h
  | _ => cases h

namespace Evaluation.Program

variable {P : Program} {typeName : String} {site : Site}

/-! ## Sites -/

theorem module?_eq_some {file : FileDescriptor} {source : SourceFile}
    (h : P.module? file = some source) :
    file.sourceFile P.registry P.settings P.version = .ok source ∧ source.loads := by
  rw [module?] at h
  split at h
  · split at h
    · obtain rfl := Option.some.inj h
      exact ⟨‹_›, ‹_›⟩
    · cases h
  · cases h

/-- A site is that of a type: a file of the program declares the type there, and the module of the
file loads. -/
structure Stands (P : Program) (typeName : String) (site : Site) : Prop where
  file : site.file ∈ P.files
  loaded : P.module? site.file = some site.source
  declared : ⟨site.path, .message site.message⟩ ∈ site.file.declarations
  name : Declaration.typeName (Registry.fileScope site.file) ⟨site.path, .message site.message⟩ =
    typeName

theorem stands_of_site? (h : P.site? typeName = some site) : P.Stands typeName site := by
  obtain ⟨file, hFile, hSite⟩ := List.exists_of_findSome?_eq_some h
  obtain ⟨source, hSource, hSite⟩ := Option.bind_eq_some_iff.1 hSite
  split at hSite
  · rename_i path m hFound
    obtain rfl := Option.some.inj hSite
    exact ⟨hFile, hSource, List.mem_of_find?_eq_some hFound, by simpa using List.find?_some hFound⟩
  · cases hSite

/-- **The site of a type is where the type is declared**: qualified names are declared once. -/
theorem site?_eq_some_iff : P.site? typeName = some site ↔ P.Stands typeName site := by
  refine ⟨stands_of_site?, fun stands => ?_⟩
  have hSome : (P.site? typeName).isSome := by
    rw [site?, List.findSome?_isSome_iff]
    refine ⟨site.file, stands.file, ?_⟩
    have hFound : (site.file.declarations.find? fun d =>
        d.typeName (Registry.fileScope site.file) = typeName) =
          some ⟨site.path, .message site.message⟩ := by
      refine find?_eq_some_of_only stands.declared (by simpa using stands.name)
        fun other hOther h => ?_
      have hName : other.typeName (Registry.fileScope site.file) = typeName := by simpa using h
      exact (P.linkable.declaration_eq stands.file stands.file hOther stands.declared
        (hName.trans stands.name.symm)).2
    simp [stands.loaded, hFound]
  obtain ⟨found, hFound⟩ := Option.isSome_iff_exists.1 hSome
  have hStands := stands_of_site? hFound
  obtain ⟨hFile, hSame⟩ := P.linkable.declaration_eq hStands.file stands.file hStands.declared
    stands.declared (hStands.name.trans stands.name.symm)
  rw [hFound]
  obtain ⟨file, source, path, m⟩ := found
  obtain ⟨file', source', path', m'⟩ := site
  cases hFile
  cases hSame
  cases hStands.loaded.symm.trans stands.loaded
  rfl

/-- **The class emitted for a type stands at the site of the type.** -/
theorem class_at_site (stands : P.Stands typeName site) :
    ∃ plan, (site.file.scope P.registry).plan site.message = .ok plan ∧
      lookup site.place site.source.body = some (plan.decl (site.file.scope P.registry)) := by
  obtain ⟨decl, ⟨plan, hPlan, rfl⟩, hFound⟩ := finds_sourceFile (module?_eq_some stands.loaded).1
    (P.linkable.distinctPaths stands.file) stands.declared rfl
  exact ⟨plan, hPlan, hFound⟩

/-- What a path means in the class of a type is what it means at the site of the type. -/
theorem reach_at (hSite : P.site? typeName = some site) (path : List String) :
    P.reach typeName path = P.meaning site path := by
  rw [Program.reach, hSite]

/-! ## The runtime -/

/-- The runtime has the same identifier in every module that has a class. -/
theorem runtime?_eq_some (stands : P.Stands typeName site) {identifier : String}
    (h : site.runtime? = some identifier) :
    identifier = "pb_1" ∧ ∃ i, site.import? identifier = some i ∧ i.source = "google-protobuf" := by
  obtain ⟨found, hFound, h⟩ := Option.bind_eq_some_iff.1 h
  obtain ⟨meant, hMeant, h⟩ := Option.bind_eq_some_iff.1 h
  split at h
  · obtain rfl := Option.some.inj h
    refine ⟨?_, meant, hMeant, ‹_›⟩
    obtain ⟨plan, -, hClass⟩ := class_at_site stands
    obtain ⟨decls, -, hSource⟩ := bind_eq_ok.1 (module?_eq_some stands.loaded).1
    have hSource := pure_eq_ok.1 hSource
    -- a module with a class has declarations, so it imports the runtime
    have hDecls : decls.isEmpty = false := by
      rw [← hSource] at hClass
      cases decls with
      | nil =>
          rw [inPackage, List.isEmpty_nil, Bool.or_true, if_pos rfl, lookup_nil] at hClass
          · cases hClass
          · simp [Site.place, path_ne_nil stands.declared]
      | cons => rfl
    have hOthers : ∀ i ∈ site.file.dependencyImports, ¬ i.source = "google-protobuf" := by
      intro i hi hSame
      obtain ⟨⟨dependency, name⟩, -, rfl⟩ := List.mem_map.1 hi
      have hStart := congrArg (fun text : String => text.toList.head?) hSame
      simp [ModulePath.relative] at hStart
    rw [← hSource] at hFound
    rw [List.find?_append, List.find?_eq_none.2 (by simpa using hOthers), Option.none_or,
      Scope.runtimeImports, hDecls, FileDescriptor.scope_runtime] at hFound
    rw [← Option.some.inj hFound]
  · cases h

/-- **No path that begins with the identifier of the runtime reaches a class.** -/
theorem reach_runtime {names : Names} (h : P.names? typeName = some names) (rest : List String) :
    names.reach (names.runtime :: rest) = .other := by
  obtain ⟨identifier, hRuntime, h⟩ := Option.bind_eq_some_iff.1 h
  obtain rfl := Option.some.inj h
  obtain ⟨site, hSite, hRuntime⟩ := Option.bind_eq_some_iff.1 hRuntime
  obtain ⟨-, i, hImport, hSource⟩ := runtime?_eq_some (stands_of_site? hSite) hRuntime
  have hFree : site.declares identifier = false := by
    by_contra hDeclared
    rw [Site.import?, if_pos (by simpa using hDeclared)] at hImport
    cases hImport
  -- the runtime is a package, not a module of the program
  have hPackage : Text.afterStart? "./" "google-protobuf" = none := rfl
  have hTarget : P.target? site.file i = none := by
    rw [target?, hSource, hPackage]
    rfl
  have hMeaning : P.meaning site (identifier :: rest) = .other := by
    simp only [meaning, hFree, hImport, importedMeaning, hTarget]
    rfl
  rw [← hMeaning]
  exact reach_at hSite _

/-! ## Classes of the same file -/

/-- What a path of declared names means where it is written. -/
theorem meaning_of_declared {first : String} {rest : List String} {outer : List String}
    (hOuter : outer <+: site.around) (h : declares (within outer site.source.body) first) :
    P.meaning site (first :: rest) =
      match refer site.source.body site.around (first :: rest) with
      | some (place, decl) => declarationMeaning site.file place decl
      | none => .other := by
  have hDeclares : site.declares first := by
    rw [Site.declares, List.any_eq_true]
    exact ⟨outer, (List.mem_inits _ _).2 hOuter, h⟩
  rw [meaning]
  exact if_pos hDeclares

/-- **In a class, the name of the class reaches the class.** -/
theorem reach_own (hSite : P.site? typeName = some site) :
    P.reach typeName [site.message.name] = .message typeName := by
  have stands := stands_of_site? hSite
  have hDistinct := P.linkable.distinctPaths stands.file
  obtain ⟨plan, -, hClass⟩ := class_at_site stands
  have hPath : site.path = site.path.dropLast ++ [site.message.name] :=
    path_of_message (mem_declarations_iff.1 ⟨stands.declared, rfl⟩) rfl
  have hPlace : site.place = site.around ++ [site.message.name] := by
    rw [Site.place, Site.around, List.append_assoc, ← hPath]
  rw [hPlace, lookup_within (by simp)] at hClass
  have hDeclares := declares_of_lookup hClass
  -- the innermost namespace around the class declares the name already
  have hRefer := refer_append [] [] hDeclares
  rw [List.append_nil, refer_of_unhidden hClass fun place hSome hNone =>
    absurd (List.prefix_nil.1 hNone) hSome, Option.map_some] at hRefer
  rw [reach_at hSite, meaning_of_declared List.prefix_rfl hDeclares]
  simp only [hRefer]
  rw [← hPlace, Site.place, Plan.decl, declarationMeaning_message hDistinct stands.declared,
    stands.name]

/-- **The path of a message of the same file reaches its class unless it is hidden**, in the class
at a site. -/
theorem reach_path_iff (hSite : P.site? typeName = some site)
    (hSelf : site.file.name ∉ site.file.dependencies) {path : List String} {m : MessageDescriptor}
    (hUsed : ⟨path, .message m⟩ ∈ site.file.declarations) {other : String}
    (hOther : Declaration.typeName (Registry.fileScope site.file) ⟨path, .message m⟩ = other) :
    P.reach typeName (Text.segments '.' ((site.file.scope P.registry).path other)) =
        .message other ↔
      ¬ site.file.Hides site.path.dropLast path := by
  subst hOther
  have stands := stands_of_site? hSite
  have hDistinct := P.linkable.distinctPaths stands.file
  have hSource := (module?_eq_some stands.loaded).1
  have hNames := P.linkable.simpleNames site.file stands.file
  have hOwner := P.linkable.owner?_eq P.registered stands.file hUsed rfl
  obtain ⟨first, rest, hPath⟩ := List.exists_cons_of_ne_nil (path_ne_nil hUsed)
  have hPath : path = first :: rest := hPath
  have hDeclares := declares_own hSource hDistinct hUsed rfl hPath
  have hRefer := refer_own_iff hSource hDistinct stands.declared hUsed rfl
  rw [path_of_own hSelf hNames (P.linkable.simpleParts site.file stands.file) hUsed hOwner,
    segments_path (path_ne_nil hUsed) (hNames _ hUsed), ← hRefer, reach_at hSite]
  subst hPath
  rw [meaning_of_declared (List.prefix_append _ _) hDeclares]
  constructor
  · intro hMeaning
    split at hMeaning
    · rename_i place decl hReached
      obtain ⟨path, m', hDeclared, rfl, hName⟩ := exists_of_declarationMeaning hMeaning
      obtain ⟨-, hSame⟩ :=
        P.linkable.declaration_eq stands.file stands.file hDeclared hUsed hName
      cases hSame
      -- what is reached is found there, and there the class of the message is emitted
      obtain ⟨emitted, hEmits, hFound⟩ := finds_sourceFile hSource hDistinct hUsed rfl
      obtain rfl := Option.some.inj ((lookup_of_refer hReached).symm.trans hFound)
      exact ⟨decl, hEmits, hReached⟩
    · cases hMeaning
  · rintro ⟨decl, ⟨plan, -, rfl⟩, hReached⟩
    change refer site.source.body site.around (first :: rest) = _ at hReached
    simp only [hReached]
    rw [Plan.decl, declarationMeaning_message hDistinct hUsed]

/-! ## Classes of imported files -/

/-- The import of a file leads to the module of the file, where every file has a module of its
own. -/
theorem target?_eq (apart : (P.files.map fun file => ModulePath.output file.name).Nodup)
    {importer dependency : FileDescriptor} (h : dependency ∈ P.files) (identifier : String) :
    P.target? importer ⟨identifier, ModulePath.relative importer.name dependency.name⟩ =
      some dependency := by
  have hRelative : Text.afterStart? "./" (ModulePath.relative importer.name dependency.name) =
      some _ := Text.afterStart?_eq_some.2 rfl
  have hPlace : String.intercalate "/" (Text.segments '/' (ModulePath.stem dependency.name)) =
      ModulePath.stem dependency.name := Text.join_segments '/' _
  rw [target?, hRelative, ModulePath.resolve_relative (P.linkable.paths _ h)]
  simp only [Option.bind_eq_bind, Option.bind_some, hPlace]
  refine find?_eq_some_of_only h (by simp [ModulePath.output]) fun other hOther hSame => ?_
  exact List.inj_on_of_nodup_map apart hOther h (by simpa [ModulePath.output] using hSame)

/-- **The path of a message of an imported file reaches its class**, in the class at a site, unless
something around the class goes by the identifier of an import. -/
theorem reach_imported (hSite : P.site? typeName = some site) {other : String} {used : Site}
    (hOther : P.site? other = some used) (hImports : used.file.name ∈ site.file.dependencies)
    (apart : (P.files.map fun file => ModulePath.output file.name).Nodup)
    (free : ∀ i ∈ site.file.dependencyImports, site.declares i.identifier = false) :
    P.reach typeName (Text.segments '.' ((site.file.scope P.registry).path other)) =
      .message other := by
  have stands := stands_of_site? hSite
  have hUsed := stands_of_site? hOther
  obtain ⟨identifier, hIdentifier, hImport⟩ :=
    site.file.identifier_of_dependency P.registry hImports
  have hName : Simple identifier := by
    obtain ⟨index, _, hSame⟩ := FileDescriptor.mem_dependencyImports.1 hImport
    rw [(Import.mk.inj hSame).1]
    exact simple_importName index
  -- the path is the identifier and the place of the class in its module
  have hPath := segments_of_imported hUsed.declared
    (P.linkable.simplePlace hUsed.file hUsed.declared)
    (P.linkable.owner?_eq P.registered hUsed.file hUsed.declared rfl) hIdentifier hName
  rw [hUsed.name] at hPath
  have hFound : site.import? identifier =
      some ⟨identifier, ModulePath.relative site.file.name used.file.name⟩ := by
    obtain ⟨decls, -, hSource⟩ := bind_eq_ok.1 (module?_eq_some stands.loaded).1
    have hSource := pure_eq_ok.1 hSource
    rw [Site.import?, free _ hImport, ← hSource]
    exact (List.find?_append ..).trans
      (by rw [FileDescriptor.find?_dependencyImports hImport, Option.some_or])
  obtain ⟨plan, -, hClass⟩ := class_at_site hUsed
  rw [Site.place] at hClass
  rw [hPath, reach_at hSite]
  simp only [meaning, free _ hImport, hFound, importedMeaning, target?_eq apart hUsed.file,
    hUsed.loaded, Option.bind_some, hClass]
  rw [Plan.decl, declarationMeaning_message (P.linkable.distinctPaths hUsed.file) hUsed.declared,
    hUsed.name]
  rfl

/-- **The path of a message type goes astray only where a message around the class hides it.** Its
file is that of the class, or one that the file imports. -/
theorem reach_iff (hSite : P.site? typeName = some site) {other : String} {used : Site}
    (hOther : P.site? other = some used) (hSelf : site.file.name ∉ site.file.dependencies)
    (known : used.file = site.file ∨ used.file.name ∈ site.file.dependencies)
    (apart : (P.files.map fun file => ModulePath.output file.name).Nodup)
    (free : ∀ i ∈ site.file.dependencyImports, site.declares i.identifier = false) :
    P.reach typeName (Text.segments '.' ((site.file.scope P.registry).path other)) =
        .message other ↔
      ¬ (used.file = site.file ∧ site.file.Hides site.path.dropLast used.path) := by
  have hUsed := stands_of_site? hOther
  by_cases hSame : used.file = site.file
  · rw [reach_path_iff hSite hSelf (hSame ▸ hUsed.declared) (hSame ▸ hUsed.name)]
    simp [hSame]
  · have hReached := reach_imported hSite hOther (known.resolve_left hSame) apart free
    exact iff_of_true hReached fun h => hSame h.1

end Evaluation.Program

/-- The program of the file that declares `B` on two levels. -/
def twoLevelsProgram : Program :=
  ⟨[twoLevels], by decide +kernel, twoLevelsRegistry, rfl, .standard, none⟩

/-- In the class `M.N` the path of the outer `B` reaches the inner one. -/
example : twoLevelsProgram.reach ".p.M.N" ["B"] = .message ".p.M.B" := rfl

end Protoscribe

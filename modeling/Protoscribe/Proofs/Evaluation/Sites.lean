import Protoscribe.Proofs.Evaluation.Store
import Protoscribe.Proofs.LocalReference

set_option autoImplicit false

/-! # Where classes stand and what their names mean

A program is what is generated from some files, module by module. The class of a message type
stands in the namespaces of its package and of the messages around it (`Site`). A dotted path that
is written in the class is looked up from there: the innermost namespace that declares its first
name decides, then the imports do, and what is neither declared nor imported is left to the
language (`Program.reach`).

A module with a declaration that the language refuses does not load, and has no classes.
-/

namespace Protoscribe

open TypeScript

/-! ## Modules that load -/

namespace TypeScript

/-- The names that nothing in a module can be declared with. -/
def reservedWords : List String :=
  ["arguments", "await", "break", "case", "catch", "class", "const", "continue", "debugger",
    "default", "delete", "do", "else", "enum", "eval", "export", "extends", "false", "finally",
    "for", "function", "if", "implements", "import", "in", "instanceof", "interface", "let", "new",
    "null", "package", "private", "protected", "public", "return", "static", "super", "switch",
    "this", "throw", "true", "try", "typeof", "var", "void", "while", "with", "yield"]

/-- The members of a class that its namespace cannot replace. -/
def fixedMembers : List String :=
  ["arguments", "caller", "length", "name", "prototype", "__proto__"]

/-- The name of a class or an enum. -/
def Decl.valueName? : Decl → Option String
  | .enumeration decl => some decl.name
  | .classDecl decl => some decl.name
  | _ => none

/-- Whether the declarations of one level can stand side by side: classes and enums have names of
their own, and the namespace of a class leaves the fixed members of the class alone. -/
def besides (decls : List Decl) : Bool :=
  decide (decls.filterMap Decl.valueName?).Nodup && decls.all fun d =>
    match d with
    | .classDecl decl => fixedMembers.all fun name => !declares (inside decl.name decls) name
    | _ => true

mutual

/-- Whether a declaration can be loaded. -/
def Decl.loads : Decl → Bool
  | .nspace name body => decide (name ∉ reservedWords) && besides body && allLoad body
  | .enumeration decl => decide (decl.name ∉ reservedWords)
  | .classDecl decl => decide (decl.name ∉ reservedWords)
  | .callable decl => decide (decl.name ∉ reservedWords)

def allLoad : List Decl → Bool
  | [] => true
  | d :: rest => d.loads && allLoad rest

end

/-- Whether a module can be loaded. -/
def SourceFile.loads (source : SourceFile) : Bool :=
  source.imports.all (fun i => !declares source.body i.identifier) && besides source.body &&
    allLoad source.body

end TypeScript

namespace Evaluation

/-! ## Programs -/

/-- The modules that are generated from some files. -/
structure Program where
  files : List FileDescriptor
  linkable : Linkable files
  registry : Registry
  registered : Registry.ofFiles files = .ok registry
  settings : Settings
  version : Option Version

/-- Where the class of a message stands. -/
structure Site where
  file : FileDescriptor
  source : SourceFile
  path : List String
  message : MessageDescriptor

namespace Site

variable (site : Site)

/-- The path of the class in its module. -/
def place : List String := site.file.packageParts ++ site.path

/-- The namespaces that the class stands in. -/
def around : List String := site.file.packageParts ++ site.path.dropLast

/-- Whether one of the namespaces around the class, or the module, declares a name. -/
def declares (name : String) : Bool :=
  site.around.inits.any fun place => TypeScript.declares (within place site.source.body) name

/-- The import that a name stands for in the class. -/
def import? (name : String) : Option Import :=
  if site.declares name then none else site.source.imports.find? (·.identifier = name)

/-- The identifier of the message runtime, where it stands for the runtime. -/
def runtime? : Option String := do
  let found ← site.source.imports.find? (·.source = "google-protobuf")
  let meant ← site.import? found.identifier
  if meant.source = "google-protobuf" then some found.identifier else none

end Site

/-- What a declaration of a module means: the class of a message type means the type, and an enum
its members. -/
def declarationMeaning (file : FileDescriptor) (place : List String) : Decl → Meaning
  | .classDecl _ =>
    match file.declarations.find? fun d => d.isType && file.packageParts ++ d.path = place with
    | some ⟨path, .message m⟩ =>
      .message (Declaration.typeName (Registry.fileScope file) ⟨path, .message m⟩)
    | _ => .other
  | .enumeration decl => .enumeration (decl.members.map Prod.fst)
  | _ => .other

namespace Program

variable (P : Program)

/-- The module of a file, if it can be loaded. -/
def module? (file : FileDescriptor) : Option SourceFile :=
  match file.sourceFile P.registry P.settings P.version with
  | .ok source => if source.loads then some source else none
  | .error _ => none

/-- Where the class of a type stands. -/
def site? (typeName : String) : Option Site :=
  P.files.findSome? fun file => do
    let source ← P.module? file
    match file.declarations.find? fun d => d.typeName (Registry.fileScope file) = typeName with
    | some ⟨path, .message m⟩ => some ⟨file, source, path, m⟩
    | _ => none

/-- The file whose module an import of a module leads to. -/
def target? (importer : FileDescriptor) (i : Import) : Option FileDescriptor := do
  -- only relative paths lead to other modules
  let _ ← Text.afterStart? "./" i.source
  let place ← ModulePath.resolve (ModulePath.directory (ModulePath.output importer.name)) i.source
  P.files.find? fun file => ModulePath.output file.name = String.intercalate "/" place ++ ".ts"

/-- What a path means after the identifier of an import. -/
def importedMeaning (importer : FileDescriptor) (i : Import) (path : List String) : Meaning :=
  match P.target? importer i with
  | some file =>
    match (P.module? file).bind fun target => lookup path target.body with
    | some decl => declarationMeaning file path decl
    | none => .other
  | none => .other

/-- What a path means in the class at a site. -/
def meaning (site : Site) : List String → Meaning
  | [] => .other
  | first :: rest =>
    if site.declares first then
      match refer site.source.body site.around (first :: rest) with
      | some (place, decl) => declarationMeaning site.file place decl
      | none => .other
    else
      match site.import? first with
      | some i => P.importedMeaning site.file i rest
      | none => .global

/-- What a path means in the class of a type. -/
def reach (typeName : String) (path : List String) : Meaning :=
  match P.site? typeName with
  | some site => P.meaning site path
  | none => .other

/-- The scope and the message that the class of a type is generated from. -/
def source? (typeName : String) : Option (Scope × MessageDescriptor) :=
  (P.site? typeName).map fun site => (site.file.scope P.registry, site.message)

/-- The members of the class of a type. -/
def members? (typeName : String) : Option (List Member) := do
  let site ← P.site? typeName
  match lookup site.place site.source.body with
  | some (.classDecl decl) => some decl.members
  | _ => none

/-- Whether the namespace of the class of a type puts something in the place of a member of the
class. -/
def overwrites (typeName name : String) : Bool :=
  (P.site? typeName).any fun site => declares (within site.place site.source.body) name

/-- What the names in the class of a type mean. -/
def names? (typeName : String) : Option Names := do
  let runtime ← (P.site? typeName).bind Site.runtime?
  return ⟨runtime, P.reach typeName⟩

end Program

end Evaluation

end Protoscribe

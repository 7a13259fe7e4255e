import Protoscribe.Message.Emission
import Protoscribe.ModulePath
import Protoscribe.Service.Overloads
import Protoscribe.Service.Stub

set_option autoImplicit false

/-! # The module of a file

A module imports the modules of the files that its file imports, in their order, and then the
runtimes it needs. Its declarations are the enums, the messages and, when there are services, the
overloads of client calls and the services; in a file with a package they stand in namespaces
named by the package.
-/

namespace Protoscribe

open TypeScript

/-- The identifier of the module imported at a position. -/
def importName (index : Nat) : String := "dependency_" ++ toString (index + 1)

namespace FileDescriptor

/-- The files that a file imports, each with the identifier of its module. -/
def importNames (file : FileDescriptor) : List (String × String) :=
  file.dependencies.mapIdx fun index dependency => (dependency, importName index)

/-- The scope of the module of a file. -/
def scope (file : FileDescriptor) (registry : Registry) : Scope :=
  file.importNames.foldl (fun scope (dependency, identifier) =>
    scope.importing dependency identifier) (.ofFile registry file)

/-- The imports of the modules of other files. -/
def dependencyImports (file : FileDescriptor) : List Import :=
  file.importNames.map fun (dependency, identifier) =>
    ⟨identifier, ModulePath.relative file.name dependency⟩

end FileDescriptor

/-- The text of a compiler version. -/
def Version.text (version : Version) : String :=
  toString version.major ++ "." ++ toString version.minor ++ "." ++ toString version.patch
    ++ (if version.suffix = "" then "" else "-" ++ version.suffix)

/-- The lines of the leading comment of a module. -/
def FileDescriptor.header (file : FileDescriptor) (version : Option Version) : List String :=
  ["Generated by protoc-gen-ts. DO NOT EDIT!"]
    ++ (version.map fun version => "compiler version: " ++ version.text).toList
    ++ ["source: " ++ file.name]

namespace Scope

/-- The declarations of several messages. -/
def allMessageDecls (scope : Scope) (messages : List MessageDescriptor) :
    Except Failure (List Decl) := do
  let decls ← messages.mapM scope.messageDecls
  return decls.flatten

/-- The declarations of several services, after the overloads of client calls. -/
def allServiceDecls (scope : Scope) (settings : Settings) (services : List ServiceDescriptor) :
    Except Failure (List Decl) :=
  match services with
  | [] => return []
  | _ :: _ => do
    let decls ← services.mapM (scope.serviceDecls settings)
    return Overloads.all scope ++ decls.flatten

/-- The declarations of the scope's file. -/
def fileDecls (scope : Scope) (settings : Settings) : Except Failure (List Decl) := do
  let messages ← scope.allMessageDecls scope.file.messages
  let services ← scope.allServiceDecls settings scope.file.services
  return scope.file.enums.map EnumDescriptor.decl ++ messages ++ services

/-- The imports of the runtimes that the declarations need. -/
def runtimeImports (scope : Scope) (settings : Settings) (decls : List Decl) : List Import :=
  (if decls.isEmpty then [] else [⟨scope.runtime, "google-protobuf"⟩])
    ++ (if scope.file.services.isEmpty then []
      else [⟨scope.callRuntime, settings.callPackage⟩])

end Scope

/-- Declarations in the namespaces of a package. -/
def inPackage (package : String) (decls : List Decl) : List Decl :=
  if package = "" || decls.isEmpty then decls else [.dotted package decls]

/-- The module of a file. -/
def FileDescriptor.sourceFile (file : FileDescriptor) (registry : Registry) (settings : Settings)
    (version : Option Version) : Except Failure SourceFile := do
  let scope := file.scope registry
  let decls ← scope.fileDecls settings
  return ⟨file.header version,
    file.dependencyImports ++ scope.runtimeImports settings decls,
    inPackage file.package decls⟩

end Protoscribe

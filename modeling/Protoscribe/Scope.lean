import Protoscribe.Registry
import Protoscribe.Text.Affix
import Protoscribe.Text.Segments
import Protoscribe.TypeScript.Expr.Basic

set_option autoImplicit false

/-! # References to types

A scope is the place from which a generated module refers to types: the registry of all types,
the file the module is generated from, and the identifiers under which the module imports the
modules of other files. A type of an imported file is reached through the identifier of that
file's module. Any other type is reached by its name inside the package of the current file.
-/

namespace Protoscribe

open TypeScript

/-- The place from which types are referred to. -/
structure Scope where
  registry : Registry
  file : FileDescriptor
  /-- The identifier of the message runtime. -/
  runtime : String
  /-- The identifier of the call runtime. -/
  callRuntime : String
  /-- The identifiers of imported files, the latest first. -/
  imported : List (String × String)

namespace Scope

/-- The scope of a file that imports nothing. -/
def ofFile (registry : Registry) (file : FileDescriptor) : Scope :=
  ⟨registry, file, "pb_1", "grpc_1", []⟩

/-- The scope in which `file` is imported as `identifier`. -/
def importing (scope : Scope) (file identifier : String) : Scope :=
  { scope with imported := (file, identifier) :: scope.imported }

/-- The identifier under which a file is imported; a later import of a file replaces an earlier
one. -/
def identifier? (scope : Scope) (file : String) : Option String :=
  scope.imported.lookup file

/-- The key and value fields of the map entry that a field is typed by. -/
def mapOf? (scope : Scope) (f : FieldDescriptor) : Option MapEntry :=
  f.typeName?.bind scope.registry.mapOf?

end Scope

/-- The name of a type inside `package`: without leading dots and, where it has them, without the
package and the dot after it. -/
def withoutPackage (package typeName : String) : String :=
  let name := Text.dropLeading '.' typeName
  if package = "" then name
  else ((Text.afterStart? package name).bind (Text.afterStart? ".")).getD name

namespace Scope

/-- The dotted path that reaches a type. -/
def path (scope : Scope) (typeName : String) : String :=
  match (scope.registry.owner? typeName).bind scope.identifier? with
  | some identifier => identifier ++ "." ++ Text.dropLeading '.' typeName
  | none => withoutPackage scope.file.package typeName

/-- A type as a type. -/
def typeRef (scope : Scope) (typeName : String) : Ty := .named (scope.path typeName)

end Scope

/-- A dotted path as an expression: its first segment and the members after it. -/
def memberChain (path : String) : Expr :=
  match Text.segments '.' path with
  | [] => .ident path
  | first :: others => others.foldl Expr.member (.ident first)

namespace Scope

/-- A type as a value, such as the class that a call goes to. -/
def valueRef (scope : Scope) (typeName : String) : Expr := memberChain (scope.path typeName)

end Scope

end Protoscribe

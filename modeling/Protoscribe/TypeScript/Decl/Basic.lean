import Protoscribe.Text.Segments
import Protoscribe.TypeScript.Expr.Basic

set_option autoImplicit false

/-! # Declarations of the emitted language

Classes, enums, interfaces of call signatures, and namespaces of such declarations. All of them
are exported. A source file is a leading comment, imports and declarations.
-/

namespace Protoscribe.TypeScript

/-- A member of a class. -/
inductive Member where
  | constructor (params : List Param) (body : List Stmt)
  | getter (name : String) (body : List Stmt)
  | setter (name : String) (param : Param) (body : List Stmt)
  /-- A method; without a body it is a signature. -/
  | method (name : String) (isStatic isAbstract : Bool) (params : List Param)
      (result : Option Ty) (body : Option (List Stmt))
  | property (name : String) (isStatic : Bool) (type : Option Ty) (value : Option Expr)
  | index (signature : IndexType Ty)

/-- An exported class. -/
structure ClassDecl where
  name : String
  isAbstract : Bool
  base : Option Expr
  members : List Member

/-- An exported enum, with the number of each of its names. -/
structure EnumDecl where
  name : String
  members : List (String × Int)

/-- A call signature, `(params): result`. -/
structure CallSignature where
  params : List Param
  result : Ty

/-- An exported interface that consists of call signatures. -/
structure InterfaceDecl where
  name : String
  typeParams : List String
  signatures : List CallSignature

/-- An exported declaration. -/
inductive Decl where
  | enumeration (decl : EnumDecl)
  | classDecl (decl : ClassDecl)
  | callable (decl : InterfaceDecl)
  | nspace (name : String) (body : List Decl)

namespace Decl

/-- The declared name. -/
def name : Decl → String
  | .enumeration decl => decl.name
  | .classDecl decl => decl.name
  | .callable decl => decl.name
  | .nspace name _ => name

/-- The namespace `outer` that holds the namespaces `inner`, each inside the one before it, with
`body` in the innermost one. -/
def nest (outer : String) : List String → List Decl → Decl
  | [], body => .nspace outer body
  | next :: inner, body => .nspace outer [nest next inner body]

/-- The namespaces that a dotted path names, around `body`. -/
def dotted (path : String) (body : List Decl) : Decl :=
  match Text.segments '.' path with
  | [] => .nspace path body
  | outer :: inner => nest outer inner body

end Decl

/-- An import of everything a module exports, `import * as identifier from "source";`. -/
structure Import where
  identifier : String
  source : String

/-- A source file: the lines of its leading comment, its imports and its declarations. -/
structure SourceFile where
  header : List String
  imports : List Import
  body : List Decl

end Protoscribe.TypeScript

import Protoscribe.TypeScript.Decl.Basic
import Protoscribe.TypeScript.Expr.Layout

set_option autoImplicit false

/-! # The layout of declarations and source files

A declaration is a heading, the lines of its members one step deeper, and a closing brace. A
source file starts with its comment and its imports, and its declarations stand at the left
margin.
-/

namespace Protoscribe.TypeScript

open Layout (text)

/-- A word of a heading with the blank after it, when it applies. -/
def modifier (applies : Bool) (word : String) : Layout :=
  if applies then text word ++ text " " else []

namespace Member

/-- The lines of a member of a class. -/
def lines : Member → List Line
  | .constructor params body =>
    enclosed (text "constructor" ++ paramsLayout params ++ text " \x7b") (Stmt.allLines body)
      "\x7d"
  | .getter name body =>
    enclosed (text "get " ++ text name ++ text "() \x7b") (Stmt.allLines body) "\x7d"
  | .setter name param body =>
    enclosed (text "set " ++ text name ++ paramsLayout [param] ++ text " \x7b")
      (Stmt.allLines body) "\x7d"
  | .method name isStatic isAbstract params result body =>
    let heading := modifier isStatic "static" ++ modifier isAbstract "abstract" ++ text name
      ++ paramsLayout params ++ annotation result
    match body with
    | none => [Line.flush (heading ++ text ";")]
    | some body => enclosed (heading ++ text " \x7b") (Stmt.allLines body) "\x7d"
  | .property name isStatic type value =>
    let initial := match value with
      | none => []
      | some value => text " = " ++ value.layout
    [Line.flush (modifier isStatic "static" ++ text name ++ annotation type ++ initial
      ++ text ";")]
  | .index signature => [Line.flush (signature.layout ++ text ";")]

end Member

/-- The lines of a class. -/
def ClassDecl.lines (decl : ClassDecl) : List Line :=
  let base := match decl.base with
    | none => []
    | some base => text " extends " ++ base.layout
  enclosed (text "export " ++ modifier decl.isAbstract "abstract" ++ text "class "
      ++ text decl.name ++ base ++ text " \x7b")
    (decl.members.flatMap Member.lines) "\x7d"

/-- The lines of an enum, with a comma after each member but the last. -/
def EnumDecl.lines (decl : EnumDecl) : List Line :=
  let members := decl.members.map fun (name, value) => text name ++ text " = " ++ text (toString value)
  enclosed (text "export enum " ++ text decl.name ++ text " \x7b")
    ((Layout.commaEnded members).map Line.flush) "\x7d"

/-- The text of a call signature. -/
def CallSignature.layout (signature : CallSignature) : Layout :=
  paramsLayout signature.params ++ text ": " ++ signature.result.layout ++ text ";"

/-- The lines of an interface. -/
def InterfaceDecl.lines (decl : InterfaceDecl) : List Line :=
  let typeParams := match decl.typeParams with
    | [] => ""
    | names => "<" ++ String.intercalate ", " names ++ ">"
  enclosed (text "export interface " ++ text decl.name ++ text typeParams ++ text " \x7b")
    (decl.signatures.map fun signature => Line.flush signature.layout) "\x7d"

mutual

/-- The lines of a declaration. -/
def Decl.lines : Decl → List Line
  | .enumeration decl => decl.lines
  | .classDecl decl => decl.lines
  | .callable decl => decl.lines
  | .nspace name body =>
    enclosed (text "export namespace " ++ text name ++ text " \x7b") (Decl.allLines body) "\x7d"

/-- The lines of a list of declarations. -/
def Decl.allLines : List Decl → List Line
  | [] => []
  | decl :: rest => decl.lines ++ Decl.allLines rest

end

/-! ## Texts -/

/-- The text of a declaration at depth `level`. -/
def Decl.text (decl : Decl) (level : Nat) : String := Line.renderAll level decl.lines

/-- The text of an import. -/
def Import.text (item : Import) : String :=
  "import * as " ++ item.identifier ++ " from " ++ Text.quoted item.source ++ ";\n"

/-- A line of the leading comment. -/
def commentLine (line : String) : String :=
  if line = "" then " *\n" else " * " ++ line ++ "\n"

/-- The leading comment; a file without header lines has none. -/
def commentText : List String → String
  | [] => ""
  | lines => "/**\n" ++ String.join (lines.map commentLine) ++ " */\n"

/-- The text of a source file: the leading comment, the imports and the declarations. -/
def SourceFile.text (file : SourceFile) : String :=
  commentText file.header ++ String.join (file.imports.map Import.text)
    ++ Line.renderAll 0 (Decl.allLines file.body)

end Protoscribe.TypeScript

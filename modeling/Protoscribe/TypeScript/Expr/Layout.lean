import Protoscribe.TypeScript.Expr.Basic
import Protoscribe.TypeScript.Ty.Layout

set_option autoImplicit false

/-! # The layout of expressions and statements

An operand is put in parentheses exactly when it binds looser than its place asks for (`operand`);
the numbers in `operatorPrecedence` and `Expr.precedence` order the operators of the language.
Statements are lines, and the statements inside another one stand one step deeper.
-/

namespace Protoscribe.TypeScript

open Layout (text listed commaEnded braced block)

/-! ## Bindings, parameters and property keys -/

/-- The text of a binding. -/
def Binding.text : Binding → String
  | .name single => single
  | .elements names => "[" ++ String.intercalate ", " names ++ "]"

/-- The text of a parameter. -/
def Param.layout (param : Param) : Layout :=
  text param.binding.text ++ text (if param.optional then "?" else "") ++ annotation param.type

/-- A list of parameters in parentheses. -/
def paramsLayout (params : List Param) : Layout :=
  (listed (params.map Param.layout)).parenthesized

/-- Whether a character may begin an identifier that needs no quotes. -/
def identifierStart (c : Char) : Bool := c.isAlpha || c == '_' || c == '$'

/-- Whether a character may stand in an identifier that needs no quotes. -/
def identifierPart (c : Char) : Bool := c.isAlphanum || c == '_' || c == '$'

/-- Whether a name is an identifier of ASCII letters, digits, `_` and `$`. -/
def isIdentifier (name : String) : Bool :=
  match name.toList with
  | [] => false
  | first :: rest => identifierStart first && rest.all identifierPart

/-- The text of a property key: a name that is no identifier is quoted. -/
def PropertyKey.text : PropertyKey → String
  | .name key => if isIdentifier key then key else Text.quoted key
  | .number value => toString value

/-! ## Expressions and statements -/

/-- How tight a binary operator binds. -/
def operatorPrecedence (operator : String) : Nat :=
  if operator = "=" then 1
  else if operator = "||" then 3
  else if operator = "&&" then 4
  else if operator ∈ ["==", "!=", "===", "!=="] then 8
  else if operator ∈ ["<", ">", "<=", ">=", "in", "instanceof"] then 9
  else if operator ∈ ["+", "-"] then 11
  else 12

namespace Expr

/-- How tight the outermost operator of an expression binds. -/
def precedence : Expr → Nat
  | .arrow .. => 0
  | .arrowBlock .. => 0
  | .conditional .. => 2
  | .binary _ operator _ => operatorPrecedence operator
  | .cast .. => 9
  | .unary .. => 14
  | .typeOf _ => 14
  | _ => 17

/-- Whether the expression is an object literal. -/
def isObject : Expr → Bool
  | .object .. => true
  | _ => false

end Expr

/-- What the left operand of a binary operator has to reach; assignment groups to the right. -/
def leftNeed (operator : String) : Nat :=
  if operator = "=" then operatorPrecedence operator + 1 else operatorPrecedence operator

/-- What the right operand of a binary operator has to reach. -/
def rightNeed (operator : String) : Nat :=
  if operator = "=" then operatorPrecedence operator else operatorPrecedence operator + 1

/-- An operand with its layout, in parentheses when it binds looser than `need`. -/
def operand (need : Nat) (e : Expr) (layout : Layout) : Layout :=
  if e.precedence < need then layout.parenthesized else layout

/-- The body of an arrow function: an object literal would be read as a block, so it stands in
parentheses. -/
def arrowBody (body : Expr) (layout : Layout) : Layout :=
  if body.isObject then layout.parenthesized else operand 1 body layout

/-- An object literal from the texts of its properties. -/
def objectLayout (multiline : Bool) : List Layout → Layout
  | [] => text "\x7b\x7d"
  | first :: rest =>
    if multiline then braced (commaEnded (first :: rest))
    else text "\x7b " ++ listed (first :: rest) ++ text " \x7d"

/-- A heading, the lines of a body one step deeper, and a closing line. -/
def enclosed (heading : Layout) (body : List Line) (closing : String) : List Line :=
  Line.flush heading :: (body.map Line.indent ++ [Line.flush (text closing)])

mutual

/-- The text of an expression. -/
def Expr.layout : Expr → Layout
  | .ident name => text name
  | .thisRef => text "this"
  | .superRef => text "super"
  | .null => text "null"
  | .bool value => text (if value then "true" else "false")
  | .number digits => text digits
  | .string value => text (Text.quoted value)
  | .member target name => operand 17 target target.layout ++ text "." ++ text name
  | .index target position =>
    operand 17 target target.layout ++ text "[" ++ position.layout ++ text "]"
  | .call callee arguments =>
    operand 17 callee callee.layout ++ (listed (Expr.layouts arguments)).parenthesized
  | .construct callee arguments =>
    text "new " ++ operand 17 callee callee.layout
      ++ (listed (Expr.layouts arguments)).parenthesized
  | .array items => text "[" ++ listed (Expr.layouts items) ++ text "]"
  | .object properties multiline => objectLayout multiline (Expr.propertyLayouts properties)
  | .arrow params result body =>
    paramsLayout params ++ annotation result ++ text " => " ++ arrowBody body body.layout
  | .arrowBlock params result body =>
    paramsLayout params ++ annotation result ++ text " => " ++ block (Stmt.allLines body)
  | .binary left operator right =>
    operand (leftNeed operator) left left.layout ++ text " " ++ text operator ++ text " "
      ++ operand (rightNeed operator) right right.layout
  | .unary operator target => text operator ++ operand 14 target target.layout
  | .typeOf target => text "typeof " ++ operand 14 target target.layout
  | .cast target type => operand 9 target target.layout ++ text " as " ++ type.layout
  | .conditional condition positive negative =>
    operand 3 condition condition.layout ++ text " ? " ++ operand 1 positive positive.layout
      ++ text " : " ++ operand 1 negative negative.layout

/-- The texts of several expressions. -/
def Expr.layouts : List Expr → List Layout
  | [] => []
  | e :: rest => e.layout :: Expr.layouts rest

/-- The texts of the properties of an object literal. -/
def Expr.propertyLayouts : List (PropertyKey × Expr) → List Layout
  | [] => []
  | (key, value) :: rest => (text key.text ++ text ": " ++ value.layout) :: Expr.propertyLayouts rest

/-- The lines of a statement. -/
def Stmt.lines : Stmt → List Line
  | .expr value => [Line.flush (value.layout ++ text ";")]
  | .ret none => [Line.flush (text "return;")]
  | .ret (some value) => [Line.flush (text "return " ++ value.layout ++ text ";")]
  | .const binding type value =>
    [Line.flush (text "const " ++ text binding.text ++ annotation type ++ text " = "
      ++ value.layout ++ text ";")]
  | .declare name => [Line.flush (text "let " ++ text name ++ text ";")]
  | .branch condition body none =>
    enclosed (text "if (" ++ condition.layout ++ text ") \x7b") (Stmt.allLines body) "\x7d"
  | .branch condition body (some otherwise) =>
    Line.flush (text "if (" ++ condition.layout ++ text ") \x7b")
      :: ((Stmt.allLines body).map Line.indent
        ++ enclosed (text "\x7d else \x7b") (Stmt.allLines otherwise) "\x7d")
  | .forOf binding items body =>
    enclosed (text "for (const " ++ text binding.text ++ text " of " ++ items.layout
      ++ text ") \x7b") (Stmt.allLines body) "\x7d"
  | .loop condition body =>
    enclosed (text "while (" ++ condition.layout ++ text ") \x7b") (Stmt.allLines body) "\x7d"
  | .select subject cases default =>
    enclosed (text "switch (" ++ subject.layout ++ text ") \x7b")
      (Stmt.caseLines cases ++ Stmt.defaultLines default) "\x7d"
  | .leave => [Line.flush (text "break;")]

/-- The lines of a list of statements. -/
def Stmt.allLines : List Stmt → List Line
  | [] => []
  | statement :: rest => statement.lines ++ Stmt.allLines rest

/-- The lines of the cases of a selection, each label followed by its statements. -/
def Stmt.caseLines : List (Expr × List Stmt) → List Line
  | [] => []
  | (label, body) :: rest =>
    Line.flush (text "case " ++ label.layout ++ text ":")
      :: ((Stmt.allLines body).map Line.indent ++ Stmt.caseLines rest)

/-- The lines of the default case of a selection, if it has one. -/
def Stmt.defaultLines : Option (List Stmt) → List Line
  | none => []
  | some body => Line.flush (text "default:") :: (Stmt.allLines body).map Line.indent

end

/-! ## Texts -/

/-- The text of an expression whose first line starts at depth `level`. -/
def Expr.text (e : Expr) (level : Nat) : String := e.layout.render level

end Protoscribe.TypeScript

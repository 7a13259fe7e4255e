import Protoscribe.TypeScript.Ty.Basic

set_option autoImplicit false

/-! # Expressions and statements of the emitted language

The trees keep no trace of layout except one flag on object literals (`multiline`), because the
same literal reads differently when it holds one option or a whole table. Names, number texts and
operators are kept as written; a string literal holds the text it stands for.
-/

namespace Protoscribe.TypeScript

/-! ## Bindings and parameters -/

/-- What a declaration or parameter binds: one name, or the elements of an array. -/
inductive Binding where
  | name (name : String)
  | elements (names : List String)

/-- A parameter of a function. -/
structure Param where
  binding : Binding
  optional : Bool
  type : Option Ty

namespace Param

/-- A required parameter with a type. -/
def typed (name : String) (type : Ty) : Param := ⟨.name name, false, some type⟩

/-- A parameter that may be left out. -/
def optionalTyped (name : String) (type : Ty) : Param := ⟨.name name, true, some type⟩

/-- A parameter without a type. -/
def bare (name : String) : Param := ⟨.name name, false, none⟩

/-- A parameter taken apart into the two elements of a pair. -/
def pair (first second : String) : Param := ⟨.elements [first, second], false, none⟩

end Param

/-! ## Expressions and statements -/

/-- The key of a property in an object literal. -/
inductive PropertyKey where
  | name (name : String)
  | number (value : Int)

mutual

/-- An expression. -/
inductive Expr where
  | ident (name : String)
  | thisRef
  | superRef
  | null
  | bool (value : Bool)
  /-- A number, as it is written. -/
  | number (text : String)
  /-- A string literal with the given content. -/
  | string (value : String)
  /-- A member, `target.name`. -/
  | member (target : Expr) (name : String)
  /-- An element, `target[index]`. -/
  | index (target index : Expr)
  | call (callee : Expr) (arguments : List Expr)
  /-- A construction, `new callee(arguments)`. -/
  | construct (callee : Expr) (arguments : List Expr)
  | array (items : List Expr)
  /-- An object literal, on one line or with one property a line. -/
  | object (properties : List (PropertyKey × Expr)) (multiline : Bool)
  /-- An arrow function that returns `body`. -/
  | arrow (params : List Param) (result : Option Ty) (body : Expr)
  /-- An arrow function whose body is a block. -/
  | arrowBlock (params : List Param) (result : Option Ty) (body : List Stmt)
  /-- A binary operation; assignment is the operator `=`. -/
  | binary (left : Expr) (operator : String) (right : Expr)
  | unary (operator : String) (operand : Expr)
  | typeOf (operand : Expr)
  /-- An assertion, `operand as type`. -/
  | cast (operand : Expr) (type : Ty)
  /-- A choice, `condition ? positive : negative`. -/
  | conditional (condition positive negative : Expr)

/-- A statement. -/
inductive Stmt where
  | expr (value : Expr)
  | ret (value : Option Expr)
  | const (binding : Binding) (type : Option Ty) (value : Expr)
  | declare (name : String)
  | branch (condition : Expr) (body : List Stmt) (otherwise : Option (List Stmt))
  | forOf (binding : Binding) (items : Expr) (body : List Stmt)
  | loop (condition : Expr) (body : List Stmt)
  | select (subject : Expr) (cases : List (Expr × List Stmt)) (default : Option (List Stmt))
  | leave

end

namespace Expr

/-- A call of a member, `target.name(arguments)`. -/
def method (target : Expr) (name : String) (arguments : List Expr) : Expr :=
  .call (.member target name) arguments

/-- A number written in decimal. -/
def int (value : Int) : Expr := .number (toString value)

/-- An array of numbers written in decimal. -/
def ints (values : List Int) : Expr := .array (values.map int)

def assign (target value : Expr) : Expr := .binary target "=" value

def not (operand : Expr) : Expr := .unary "!" operand

def and (left right : Expr) : Expr := .binary left "&&" right

def undefined : Expr := .ident "undefined"

/-- An arrow function without a result type. -/
def lambda (params : List Param) (body : Expr) : Expr := .arrow params none body

/-- An object literal without properties. -/
def emptyObject : Expr := .object [] false

end Expr

namespace Stmt

/-- A constant without a type. -/
def constant (name : String) (value : Expr) : Stmt := .const (.name name) none value

/-- A branch without an alternative. -/
def guarded (condition : Expr) (body : List Stmt) : Stmt := .branch condition body none

/-- The statement that returns a value. -/
def give (value : Expr) : Stmt := .ret (some value)

end Stmt

end Protoscribe.TypeScript

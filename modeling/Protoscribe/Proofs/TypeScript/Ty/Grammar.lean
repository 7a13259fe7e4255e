import Protoscribe.Proofs.TypeScript.Grammar
import Protoscribe.Proofs.TypeScript.Ty.Flattening

set_option autoImplicit false

/-! # A reader of types

The type grammar of TypeScript, as far as names with type arguments, arrays, unions, intersections,
object types, string types and the types of values go. An array binds tightest, also behind the path
of a value; then come intersections and then unions. The members of an object type end with a
semicolon, and at most one of them is an index signature.

Types are cut into the tokens of expressions, but every punctuator is one character: two closing
brackets of type arguments may stand side by side.
-/

namespace Protoscribe.TypeScript.TypeGrammar

open Text.Literal (literal length_literal)

/-! ## The lexer -/

/-- The punctuators. -/
def signs : List Char :=
  ['\x7b', '\x7d', '(', ')', '[', ']', '<', '>', '|', '&', '.', ',', ';', ':', '?']

/-- The tokens of a text, if it consists of tokens and blanks. -/
def lex (cs : List Char) : Option (List Token) :=
  match cs with
  | [] => some []
  | c :: rest =>
    if isBlank c then lex rest
    else if identifierStart c then
      (lex (rest.dropWhile identifierPart)).map
        (.word (String.ofList (c :: rest.takeWhile identifierPart)) :: ·)
    else if c = '"' then
      match _h : literal rest with
      | none => none
      | some (content, behind) => (lex behind).map (.text (String.ofList content) :: ·)
    else if c ∈ signs then (lex rest).map (.mark (String.singleton c) :: ·)
    else none
termination_by cs.length
decreasing_by
  · simp
  · have hSuffix : rest.dropWhile identifierPart <:+ rest := List.dropWhile_suffix _
    have := hSuffix.length_le
    simp only [List.length_cons]
    omega
  · have := length_literal _h
    simp only [List.length_cons]
    omega
  · simp

/-! ## The reader -/

/-- Names with dots between them. -/
def names (ts : List Token) : Option (List String × List Token) :=
  named ts fun name rest _ =>
    past [.mark "."] rest (some ([name], rest)) fun _ more _ =>
      (names more).map fun (others, behind) => (name :: others, behind)
termination_by ts.length

/-- The array signs behind a type. -/
def arrays (element : Ty) (ts : List Token) : Option (Ty × List Token) :=
  past [.mark "["] ts (some (element, ts)) fun _ rest _ =>
    past [.mark "]"] rest none fun _ behind _ => arrays (.array element) behind
termination_by ts.length

mutual

/-- A type: the members of a union. -/
def type (ts : List Token) : Option (Ty × List Token) :=
  (alternatives ts).map fun (members, rest) => (Join.union.joined members, rest)
termination_by (ts.length, 5)

/-- Intersections with `|` between them. -/
def alternatives (ts : List Token) : Option (List Ty × List Token) :=
  consume ts (factors ts) fun members rest _ =>
    past [.mark "|"] rest (some ([Join.intersection.joined members], rest)) fun _ more _ =>
      (alternatives more).map fun (others, behind) =>
        (Join.intersection.joined members :: others, behind)
termination_by (ts.length, 4)

/-- The members of an intersection, with `&` between them. -/
def factors (ts : List Token) : Option (List Ty × List Token) :=
  consume ts (suffixed ts) fun member rest _ =>
    past [.mark "&"] rest (some ([member], rest)) fun _ more _ =>
      (factors more).map fun (others, behind) => (member :: others, behind)
termination_by (ts.length, 3)

/-- A type with array signs behind it. -/
def suffixed (ts : List Token) : Option (Ty × List Token) :=
  consume ts (primary ts) fun element rest _ => arrays element rest
termination_by (ts.length, 2)

/-- A string type, the type of a value, a name with its type arguments, a type in parentheses or an
object type. -/
def primary (ts : List Token) : Option (Ty × List Token) :=
  match ts with
  | [] => none
  | .text content :: rest => some (.literal content, rest)
  | .word name :: rest =>
    if name = "typeof" then
      (names rest).map fun (path, behind) => (.query (String.intercalate "." path), behind)
    else reference (.word name :: rest)
  | .mark sign :: rest =>
    if sign = "(" then closed (.mark ")") (type rest)
    else if sign = "\x7b" then
      (fields rest).map fun ((properties, index), behind) => (.record properties index, behind)
    else none
termination_by (ts.length, 1)

/-- A name, perhaps with type arguments. -/
def reference (ts : List Token) : Option (Ty × List Token) :=
  consume ts (names ts) fun path rest _ =>
    past [.mark "<"] rest (some (.reference (String.intercalate "." path) [], rest))
      fun _ inner _ =>
        (arguments inner).map fun (types, behind) =>
          (.reference (String.intercalate "." path) types, behind)
termination_by (ts.length, 0)

/-- Types with commas between them, up to the closing bracket. -/
def arguments (ts : List Token) : Option (List Ty × List Token) :=
  consume ts (type ts) fun first rest _ =>
    past [.mark ","] rest (past [.mark ">"] rest none fun _ behind _ => some ([first], behind))
      fun _ more _ => (arguments more).map fun (others, behind) => (first :: others, behind)
termination_by (ts.length, 6)

/-- A type behind a colon and in front of a closing sign. -/
def annotated (closing : Token) (ts : List Token) : Option (Ty × List Token) :=
  past [.mark ":"] ts none fun _ rest _ => closed closing (type rest)
termination_by (ts.length, 0)

/-- The members of an object type, up to the closing brace. -/
def fields (ts : List Token) :
    Option ((List (PropertyType Ty) × Option (IndexType Ty)) × List Token) :=
  past [.mark "\x7d"] ts
    (past [.mark "["] ts
      (named ts fun name rest _ =>
        past [.mark "?"] rest (property name false rest) fun _ behind _ =>
          property name true behind)
      fun _ rest _ => signature rest)
    fun _ rest _ => some (([], none), rest)
termination_by (ts.length, 2)

/-- A property behind its name and its mark, and the members behind it. -/
def property (name : String) (optional : Bool) (ts : List Token) :
    Option ((List (PropertyType Ty) × Option (IndexType Ty)) × List Token) :=
  consume ts (annotated (.mark ";") ts) fun type rest _ =>
    (fields rest).map fun ((properties, index), behind) =>
      ((⟨name, optional, type⟩ :: properties, index), behind)
termination_by (ts.length, 1)

/-- An index signature behind its opening bracket, and the members behind it. -/
def signature (ts : List Token) :
    Option ((List (PropertyType Ty) × Option (IndexType Ty)) × List Token) :=
  named ts fun parameter rest _ =>
    consume rest (annotated (.mark "]") rest) fun key rest _ =>
      consume rest (annotated (.mark ";") rest) fun value rest _ =>
        (fields rest).bind fun ((properties, index), behind) =>
          if index.isNone then some ((properties, some ⟨parameter, key, value⟩), behind)
          else none
termination_by (ts.length, 0)

end

end TypeGrammar

/-- **The type that a text is**, read to the end of the text. -/
def Ty.read (text : String) : Option Ty :=
  match (TypeGrammar.lex text.toList).bind TypeGrammar.type with
  | some (type, []) => some type
  | _ => none

end Protoscribe.TypeScript

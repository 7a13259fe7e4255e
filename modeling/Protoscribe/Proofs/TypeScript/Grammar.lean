import Protoscribe.Proofs.TypeScript.Token

set_option autoImplicit false

/-! # A reader of expressions

The expression grammar of ECMAScript with `as`, as far as operators, members, elements, calls,
arrays and parentheses go. Assignments and choices bind loosest and group to the right. Then come
the levels of binary operators, which group to the left, from `||` to `+` and `-` (`levels`), with
`as` among the relational operators. The operators `!` and `typeof` bind tighter, and a member, an
element or a call tightest. The type behind `as` is read as one word.

Every function reads its part at the beginning of a list of tokens and returns what follows it. A
part uses up at least one token (`consume`), so the recursion ends.
-/

namespace Protoscribe.TypeScript

/-- The text of a token that is no literal. -/
def Token.content : Token → String
  | .word name => name
  | .text content => content
  | .mark sign => sign

/-- Whether an expression may be assigned to. -/
def Expr.isTarget : Expr → Bool
  | .ident _ => true
  | .member _ _ => true
  | .index _ _ => true
  | _ => false

/-- The words that are no identifiers. -/
def reserved : List String := ["this", "null", "true", "false", "typeof", "in", "instanceof"]

/-- The binary operators except assignment, level by level, the loosest level first. -/
def levels : List (List Token) :=
  [[.mark "||"], [.mark "&&"], [.mark "==", .mark "!=", .mark "===", .mark "!=="],
    [.mark "<", .mark ">", .mark "<=", .mark ">=", .word "in", .word "instanceof", .word "as"],
    [.mark "+", .mark "-"]]

section Sequences

variable {α β : Type}

/-- A part at the beginning of the tokens, and then what `next` reads behind it. -/
def consume (ts : List Token) (first : Option (α × List Token))
    (next : α → (rest : List Token) → rest.length < ts.length → Option β) : Option β :=
  match first with
  | none => none
  | some (part, rest) => if h : rest.length < ts.length then next part rest h else none

/-- If one of the signs comes first, what `next` reads behind it; otherwise `otherwise`. -/
def past (signs : List Token) (ts : List Token) (otherwise : Option β)
    (next : Token → (rest : List Token) → rest.length < ts.length → Option β) : Option β :=
  match ts with
  | [] => otherwise
  | t :: rest => if t ∈ signs then next t rest (Nat.lt_succ_self _) else otherwise

/-- A name, and then what `next` reads behind it. -/
def named (ts : List Token) (next : String → (rest : List Token) → rest.length < ts.length → Option β) :
    Option β :=
  match ts with
  | .word name :: rest => next name rest (Nat.lt_succ_self _)
  | _ => none

/-- A part that stands before a closing sign. -/
def closed (sign : Token) (part : Option (α × List Token)) : Option (α × List Token) :=
  part.bind fun (value, rest) => past [sign] rest none fun _ behind _ => some (value, behind)

end Sequences

/-! ## The reader -/

mutual

/-- An assignment or a choice. -/
def assignment (ts : List Token) : Option (Expr × List Token) :=
  consume ts (choice ts) fun left rest _ =>
    past [.mark "="] rest (some (left, rest)) fun _ value _ =>
      if left.isTarget then
        (assignment value).map fun (right, behind) => (.binary left "=" right, behind)
      else none
termination_by (ts.length, 5 + levels.length)

/-- A choice between two expressions, or a binary operation. -/
def choice (ts : List Token) : Option (Expr × List Token) :=
  consume ts (binary levels ts) fun condition rest _ =>
    past [.mark "?"] rest (some (condition, rest)) fun _ branches _ =>
      consume branches (assignment branches) fun positive rest _ =>
        past [.mark ":"] rest none fun _ other _ =>
          (assignment other).map fun (negative, behind) =>
            (.conditional condition positive negative, behind)
termination_by (ts.length, 4 + levels.length)

/-- A binary operation of one of the levels, or an operand. -/
def binary (levels : List (List Token)) (ts : List Token) : Option (Expr × List Token) :=
  match levels with
  | [] => unary ts
  | operators :: tighter =>
    consume ts (binary tighter ts) fun left rest _ => binaryRest operators tighter left rest
termination_by (ts.length, 3 + levels.length)

/-- The operations of one level behind their first operand. -/
def binaryRest (operators : List Token) (tighter : List (List Token)) (left : Expr)
    (ts : List Token) : Option (Expr × List Token) :=
  past operators ts (some (left, ts)) fun operator rest _ =>
    if operator = .word "as" then
      named rest fun name behind _ =>
        binaryRest operators tighter (.cast left (.named name)) behind
    else
      consume rest (binary tighter rest) fun right behind _ =>
        binaryRest operators tighter (.binary left operator.content right) behind
termination_by (ts.length, 0)

/-- An operand, perhaps behind `!` or `typeof`. -/
def unary (ts : List Token) : Option (Expr × List Token) :=
  past [.mark "!"] ts
    (past [.word "typeof"] ts (suffixed ts) fun _ rest _ =>
      (unary rest).map fun (target, behind) => (.typeOf target, behind))
    fun _ rest _ => (unary rest).map fun (target, behind) => (.unary "!" target, behind)
termination_by (ts.length, 2)

/-- An operand with members, elements and calls behind it. -/
def suffixed (ts : List Token) : Option (Expr × List Token) :=
  consume ts (primary ts) fun target rest _ => suffixes target rest
termination_by (ts.length, 1)

/-- The members, elements and calls behind an operand. -/
def suffixes (target : Expr) (ts : List Token) : Option (Expr × List Token) :=
  past [.mark ".", .mark "[", .mark "("] ts (some (target, ts)) fun sign rest _ =>
    if sign = .mark "." then
      named rest fun name behind _ => suffixes (.member target name) behind
    else if sign = .mark "[" then
      consume rest (closed (.mark "]") (assignment rest)) fun position behind _ =>
        suffixes (.index target position) behind
    else
      consume rest (items (.mark ")") rest) fun arguments behind _ =>
        suffixes (.call target arguments) behind
termination_by (ts.length, 0)

/-- A name, a literal, an array or an expression in parentheses. -/
def primary (ts : List Token) : Option (Expr × List Token) :=
  match ts with
  | [] => none
  | .text content :: rest => some (.string content, rest)
  | .word name :: rest =>
    if name = "this" then some (.thisRef, rest)
    else if name = "null" then some (.null, rest)
    else if name = "true" then some (.bool true, rest)
    else if name = "false" then some (.bool false, rest)
    else if name ∈ reserved then none
    else some (.ident name, rest)
  | .mark sign :: rest =>
    if sign = "(" then closed (.mark ")") (assignment rest)
    else if sign = "[" then
      (items (.mark "]") rest).map fun (values, behind) => (.array values, behind)
    else none
termination_by (ts.length, 0)

/-- Expressions with commas between them, up to a closing sign; a comma may stand before it. -/
def items (closing : Token) (ts : List Token) : Option (List Expr × List Token) :=
  past [closing] ts
    (consume ts (assignment ts) fun first rest _ =>
      past [.mark ","] rest (past [closing] rest none fun _ behind _ => some ([first], behind))
        fun _ more _ =>
          (items closing more).map fun (others, behind) => (first :: others, behind))
    fun _ rest _ => some ([], rest)
termination_by (ts.length, 6 + levels.length)

end

/-- **The expression that a text is**, read to the end of the text. -/
def Expr.read (text : String) : Option Expr :=
  match (lex text.toList).bind assignment with
  | some (e, []) => some e
  | _ => none

end Protoscribe.TypeScript

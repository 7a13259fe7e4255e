import Protoscribe.Proofs.Text.StringLiteral
import Protoscribe.TypeScript.Expr.Layout

set_option autoImplicit false

/-! # Tokens

A text of the emitted language is a list of words, string literals and punctuators with blanks
between them. The punctuators are those of ECMAScript, and of several that a text begins with the
longest one is read. Main statements: `lex_word`, `lex_quoted` and `lex_mark`, how a text is read
that begins with a word, a literal or a punctuator.

A word is made of ASCII letters, digits, `_` and `$`. Numbers, comments, regular expressions and
templates are not read.
-/

namespace Protoscribe.TypeScript

open Text.Literal (literal length_literal literal_encode)

/-- A token. -/
inductive Token where
  /-- An identifier or a reserved word. -/
  | word (name : String)
  /-- A string literal with the given content. -/
  | text (content : String)
  /-- A punctuator. -/
  | mark (sign : String)
  deriving DecidableEq

/-! ## The lexer -/

/-- The punctuators, the longer ones first. -/
def marks : List String :=
  [">>>=",
    "...", "===", "!==", "**=", "<<=", ">>=", ">>>", "&&=", "||=", "??=",
    "=>", "==", "!=", "<=", ">=", "&&", "||", "??", "?.", "++", "--", "+=", "-=", "*=", "/=", "%=",
    "&=", "|=", "^=", "<<", ">>", "**",
    "\x7b", "\x7d", "(", ")", "[", "]", ".", ";", ",", "<", ">", "+", "-", "*", "/", "%", "&", "|",
    "^", "!", "~", "?", ":", "="]

/-- The longest punctuator at the beginning of a text, and what follows it. -/
def mark? (cs : List Char) : Option (String × List Char) :=
  (marks.find? fun sign => sign.toList.isPrefixOf cs).map fun sign =>
    (sign, cs.drop sign.toList.length)

/-- Whether a character separates tokens and is part of none. -/
def isBlank (c : Char) : Bool := c ∈ [' ', '\t', '\n', '\r']

/-- What a punctuator may begin with: no blank, no quote and nothing that begins a word. -/
def beginsMark (c : Char) : Bool := !isBlank c && !identifierStart c && c ≠ '"'

theorem mark?_eq_some {cs behind : List Char} {sign : String} (h : mark? cs = some (sign, behind)) :
    ∃ c rest, cs = c :: rest ∧ beginsMark c ∧ behind.length ≤ rest.length := by
  have hMarks : ∀ sign ∈ marks, sign.toList.head?.any beginsMark := by decide +kernel
  obtain ⟨found, hFound, hPair⟩ := Option.map_eq_some_iff.1 h
  obtain ⟨rfl, rfl⟩ := Prod.mk.inj hPair
  have hPrefix := List.find?_some (p := fun sign : String => sign.toList.isPrefixOf cs) hFound
  have hBegins := hMarks found (List.mem_of_find?_eq_some hFound)
  cases hSign : found.toList with
  | nil => simp [hSign] at hBegins
  | cons c others =>
      rw [hSign] at hPrefix hBegins
      cases cs with
      | nil => cases hPrefix
      | cons first rest =>
          obtain ⟨hFirst, -⟩ := Bool.and_eq_true_iff.1 hPrefix
          obtain rfl := eq_of_beq hFirst
          refine ⟨c, rest, rfl, hBegins, ?_⟩
          rw [List.length_cons, List.drop_succ_cons, List.length_drop]
          omega

/-- The tokens of a text, if it consists of tokens and blanks. -/
def lex (cs : List Char) : Option (List Token) :=
  match cs with
  | [] => some []
  | c :: rest =>
    if isBlank c then lex rest
    else if identifierStart c then
      (lex (rest.dropWhile identifierPart)).map
        (.word (String.ofList (c :: rest.takeWhile identifierPart)) :: ·)
    else if c = '"' then
      match _h : literal rest with
      | none => none
      | some (content, behind) => (lex behind).map (.text (String.ofList content) :: ·)
    else
      match _h : mark? (c :: rest) with
      | none => none
      | some (sign, behind) => (lex behind).map (.mark sign :: ·)
termination_by cs.length
decreasing_by
  · simp
  · have hSuffix : rest.dropWhile identifierPart <:+ rest := List.dropWhile_suffix _
    have := hSuffix.length_le
    simp only [List.length_cons]
    omega
  · have := length_literal _h
    simp only [List.length_cons]
    omega
  · obtain ⟨first, others, hText, -, hLength⟩ := mark?_eq_some _h
    rw [hText, List.length_cons]
    omega

/-! ## One token at a time -/

theorem lex_nil : lex [] = some [] := by rw [lex]

theorem lex_blank (rest : List Char) : lex (' ' :: rest) = lex rest := by
  rw [lex, if_pos (by decide)]

/-- No character follows that would continue a word. -/
def Stops (rest : List Char) : Prop := ∀ c ∈ rest.head?, identifierPart c = false

theorem takeWhile_stops {name rest : List Char} (hName : name.all identifierPart)
    (h : Stops rest) : (name ++ rest).takeWhile identifierPart = name ∧
      (name ++ rest).dropWhile identifierPart = rest := by
  induction name with
  | nil =>
      cases rest with
      | nil => exact ⟨rfl, rfl⟩
      | cons c rest =>
          have hc : identifierPart c = false := h c rfl
          simp [hc]
  | cons c name ih =>
      obtain ⟨hc, hRest⟩ := Bool.and_eq_true_iff.1 hName
      obtain ⟨hTake, hDrop⟩ := ih hRest
      simp only [List.cons_append, List.takeWhile_cons, List.dropWhile_cons, hc, if_true]
      exact ⟨congrArg _ hTake, hDrop⟩

theorem not_blank_of_start {c : Char} (h : identifierStart c) : isBlank c = false := by
  have hBlanks : [' ', '\t', '\n', '\r'].all (!identifierStart ·) := by decide
  cases hBlank : isBlank c with
  | false => rfl
  | true =>
      have hStart := List.all_eq_true.1 hBlanks c (of_decide_eq_true hBlank)
      simp [h] at hStart

/-- What a lexer finds at the beginning of a text that begins with a word. -/
theorem identifier_span {name : String} (hName : isIdentifier name) {rest : List Char}
    (hStops : Stops rest) : ∃ c others, name.toList = c :: others ∧ identifierStart c ∧
      (others ++ rest).takeWhile identifierPart = others ∧
      (others ++ rest).dropWhile identifierPart = rest := by
  unfold isIdentifier at hName
  cases hText : name.toList with
  | nil => simp [hText] at hName
  | cons c others =>
      rw [hText] at hName
      obtain ⟨hStart, hOthers⟩ := Bool.and_eq_true_iff.1 hName
      exact ⟨c, others, rfl, hStart, takeWhile_stops hOthers hStops⟩

/-- **A text that begins with a word.** -/
theorem lex_word {name : String} (hName : isIdentifier name) {rest : List Char} (hStops : Stops rest)
    {out : List Token} (hRest : lex rest = some out) :
    lex (name.toList ++ rest) = some (.word name :: out) := by
  obtain ⟨c, others, hText, hStart, hTake, hDrop⟩ := identifier_span hName hStops
  rw [hText, List.cons_append, lex, if_neg (by simp [not_blank_of_start hStart]), if_pos hStart,
    hTake, hDrop, hRest, ← hText, String.ofList_toList]
  rfl

/-- **A text that begins with a literal.** -/
theorem lex_quoted (content : String) {rest : List Char} {out : List Token}
    (hRest : lex rest = some out) :
    lex ((Text.quoted content).toList ++ rest) = some (.text content :: out) := by
  have hText : (Text.quoted content).toList ++ rest =
      '"' :: (content.toList.flatMap Text.Quoted.escape ++ '"' :: rest) := by
    simp [Text.toList_quoted]
  rw [hText, lex, if_neg (by decide), if_neg (by decide), if_pos rfl, literal_encode]
  simp [hRest]

/-- **A text that begins with a punctuator.** -/
theorem lex_mark {cs behind : List Char} {sign : String} (h : mark? cs = some (sign, behind))
    {out : List Token} (hBehind : lex behind = some out) : lex cs = some (.mark sign :: out) := by
  obtain ⟨c, rest, rfl, hBegins, -⟩ := mark?_eq_some h
  obtain ⟨⟨hBlank, hStart⟩, hQuote⟩ :
      (isBlank c = false ∧ identifierStart c = false) ∧ c ≠ '"' := by
    simpa [beginsMark] using hBegins
  rw [lex, if_neg (by simp [hBlank]), if_neg (by simp [hStart]), if_neg hQuote, h]
  simp [hBehind]

end Protoscribe.TypeScript

import Protoscribe.Proofs.TypeScript.Precedence

set_option autoImplicit false

/-! # Printed expressions group as they should

An expression is written with parentheses only where its parts would otherwise be grouped in
another way. Main statement: `read_text`, the text of an expression is read back as the expression,
for all expressions of the kinds that the reader knows (`Expr.Readable`).

The way goes over the tokens. A text is written as tokens (`Spells`), and these are read as the
expression (`Parsed`); an expression with both is `Legible`. Each kind of expression is legible if
its parts are.
-/

namespace Protoscribe.TypeScript

open Layout (text listed)

/-! ## Texts and tokens -/

/-- The text of a layout is written as the tokens, if nothing behind it continues its last word. -/
def Lexes (layout : Layout) (ts : List Token) : Prop :=
  ∀ level rest out, Stops rest → lex rest = some out →
    lex ((layout.render level).toList ++ rest) = some (ts ++ out)

/-- The text of a layout begins with something else than an equals sign, so a `!` in front of it
stays a token of its own. -/
def Begins (layout : Layout) : Prop :=
  ∀ level, ∃ c cs, (layout.render level).toList = c :: cs ∧ c ≠ '='

/-- What an expression is written as. -/
structure Spells (layout : Layout) (ts : List Token) : Prop where
  begins : Begins layout
  lexes : Lexes layout ts

/-- A piece between expressions: its tokens do not depend on what follows it, and it ends a word in
front of it. -/
structure Separates (layout : Layout) (ts : List Token) : Prop where
  stops : ∀ level rest, Stops ((layout.render level).toList ++ rest)
  lexes : ∀ level rest out, lex rest = some out →
    lex ((layout.render level).toList ++ rest) = some (ts ++ out)

variable {a b separator : Layout} {ts us vs : List Token}

theorem toList_render_append (level : Nat) (a b : Layout) :
    (Layout.render level (a ++ b)).toList =
      (a.render level).toList ++ (b.render level).toList := by
  rw [Layout.render_append, String.toList_append]

theorem stops_cons {c : Char} (h : identifierPart c = false) (rest : List Char) :
    Stops (c :: rest) := by
  rintro _ ⟨⟩
  exact h

theorem Begins.append (h : Begins a) (b : Layout) : Begins (a ++ b) := by
  intro level
  obtain ⟨c, cs, hText, hc⟩ := h level
  refine ⟨c, cs ++ (b.render level).toList, ?_, hc⟩
  rw [toList_render_append, hText, List.cons_append]

theorem begins_text {content : String} {c : Char} {cs : List Char} (h : content.toList = c :: cs)
    (hc : c ≠ '=') : Begins (text content) :=
  fun level => ⟨c, cs, by rw [Layout.render_text, h], hc⟩

namespace Lexes

theorem nil : Lexes [] [] := fun _ _ _ _ hRest => hRest

theorem append_separator (ha : Lexes a ts) (hs : Separates separator us) :
    Lexes (a ++ separator) (ts ++ us) := by
  intro level rest out _ hRest
  have hMiddle := hs.lexes level rest out hRest
  have hAll := ha level _ _ (hs.stops level rest) hMiddle
  rw [toList_render_append, List.append_assoc, hAll, List.append_assoc]

theorem separator_append (hs : Separates separator us) (hb : Lexes b vs) :
    Lexes (separator ++ b) (us ++ vs) := by
  intro level rest out hStops hRest
  have hAll := hs.lexes level _ _ (hb level rest out hStops hRest)
  rw [toList_render_append, List.append_assoc, hAll, List.append_assoc]

theorem joined (ha : Lexes a ts) (hs : Separates separator us) (hb : Lexes b vs) :
    Lexes (a ++ separator ++ b) (ts ++ (us ++ vs)) := by
  intro level rest out hStops hRest
  have hRight := separator_append hs hb level rest out hStops hRest
  rw [toList_render_append, List.append_assoc] at hRight
  have hBoundary : Stops ((separator.render level).toList ++ ((b.render level).toList ++ rest)) :=
    hs.stops level _
  have hAll := ha level _ _ hBoundary hRight
  simpa only [toList_render_append, List.append_assoc] using hAll

end Lexes

/-! ## Separators -/

theorem separates_text {content : String} (c : Char) (cs : List Char)
    (hText : content.toList = c :: cs) (hStop : identifierPart c = false)
    (hLex : ∀ rest out, lex rest = some out → lex (c :: (cs ++ rest)) = some (ts ++ out)) :
    Separates (text content) ts where
  stops level rest := by
    rw [Layout.render_text, hText]
    exact stops_cons hStop _
  lexes level rest out hRest := by
    rw [Layout.render_text, hText]
    exact hLex rest out hRest

/-- Parentheses and brackets are tokens whatever follows them. -/
theorem separates_bracket {sign : String} (h : sign ∈ ["(", ")", "[", "]"]) :
    Separates (text sign) [.mark sign] := by
  simp only [List.mem_cons, List.not_mem_nil, or_false] at h
  rcases h with rfl | rfl | rfl | rfl
  · exact separates_text '(' [] rfl (by decide) fun _ _ h => lex_mark rfl h
  · exact separates_text ')' [] rfl (by decide) fun _ _ h => lex_mark rfl h
  · exact separates_text '[' [] rfl (by decide) fun _ _ h => lex_mark rfl h
  · exact separates_text ']' [] rfl (by decide) fun _ _ h => lex_mark rfl h

theorem separates_comma : Separates (text ", ") [.mark ","] :=
  separates_text ',' [' '] rfl (by decide) fun _ _ h => lex_mark rfl ((lex_blank _).trans h)

theorem separates_then : Separates (text " ? ") [.mark "?"] :=
  separates_text ' ' ['?', ' '] rfl (by decide) fun _ _ h =>
    (lex_blank _).trans (lex_mark rfl ((lex_blank _).trans h))

theorem separates_else : Separates (text " : ") [.mark ":"] :=
  separates_text ' ' [':', ' '] rfl (by decide) fun _ _ h =>
    (lex_blank _).trans (lex_mark rfl ((lex_blank _).trans h))

theorem separates_as : Separates (text " as ") [.word "as"] :=
  separates_text ' ' ['a', 's', ' '] rfl (by decide) fun rest _ h =>
    (lex_blank _).trans (lex_word (by decide : isIdentifier "as") (stops_cons (by decide) rest)
      ((lex_blank _).trans h))

/-- An operator between blanks. -/
theorem separates_operator {operator : String} {t : Token}
    (h : ∀ rest out, lex rest = some out →
      lex (operator.toList ++ ' ' :: rest) = some (t :: out)) :
    Separates (text " " ++ text operator ++ text " ") [t] where
  stops level rest := by
    rw [toList_render_append, toList_render_append, Layout.render_text]
    exact stops_cons (by decide) _
  lexes level rest out hRest := by
    simp only [toList_render_append, Layout.render_text, List.append_assoc]
    exact (lex_blank _).trans (h rest out hRest)

theorem separates_sign {sign : String}
    (h : ∀ rest, mark? (sign.toList ++ ' ' :: rest) = some (sign, ' ' :: rest)) :
    Separates (text " " ++ text sign ++ text " ") [.mark sign] :=
  separates_operator fun rest _ hRest => lex_mark (h rest) ((lex_blank rest).trans hRest)

theorem separates_word {name : String} (h : isIdentifier name) :
    Separates (text " " ++ text name ++ text " ") [.word name] :=
  separates_operator fun rest _ hRest =>
    lex_word h (stops_cons (by decide) rest) ((lex_blank rest).trans hRest)

/-- The binary operators. -/
def binaryOperators : List String :=
  ["||", "&&", "==", "!=", "===", "!==", "<", ">", "<=", ">=", "in", "instanceof", "+", "-"]

/-- Each binary operator is a token of the level of its precedence. -/
theorem operator_token {operator : String} (h : operator ∈ binaryOperators) :
    ∃ t operators tighter, IsLevel (operatorPrecedence operator) operators tighter ∧
      t ∈ operators ∧ t ≠ .word "as" ∧ t.content = operator ∧
      Separates (text " " ++ text operator ++ text " ") [t] := by
  simp only [binaryOperators, List.mem_cons, List.not_mem_nil, or_false] at h
  rcases h with rfl | rfl | rfl | rfl | rfl | rfl | rfl | rfl | rfl | rfl | rfl | rfl | rfl | rfl
  · exact ⟨.mark "||", _, _, .or, by decide, by decide, rfl, separates_sign fun _ => rfl⟩
  · exact ⟨.mark "&&", _, _, .and, by decide, by decide, rfl, separates_sign fun _ => rfl⟩
  · exact ⟨.mark "==", _, _, .equality, by decide, by decide, rfl, separates_sign fun _ => rfl⟩
  · exact ⟨.mark "!=", _, _, .equality, by decide, by decide, rfl, separates_sign fun _ => rfl⟩
  · exact ⟨.mark "===", _, _, .equality, by decide, by decide, rfl, separates_sign fun _ => rfl⟩
  · exact ⟨.mark "!==", _, _, .equality, by decide, by decide, rfl, separates_sign fun _ => rfl⟩
  · exact ⟨.mark "<", _, _, .relational, by decide, by decide, rfl, separates_sign fun _ => rfl⟩
  · exact ⟨.mark ">", _, _, .relational, by decide, by decide, rfl, separates_sign fun _ => rfl⟩
  · exact ⟨.mark "<=", _, _, .relational, by decide, by decide, rfl, separates_sign fun _ => rfl⟩
  · exact ⟨.mark ">=", _, _, .relational, by decide, by decide, rfl, separates_sign fun _ => rfl⟩
  · exact ⟨.word "in", _, _, .relational, by decide, by decide, rfl, separates_word (by decide)⟩
  · exact ⟨.word "instanceof", _, _, .relational, by decide, by decide, rfl,
      separates_word (by decide)⟩
  · exact ⟨.mark "+", _, _, .additive, by decide, by decide, rfl, separates_sign fun _ => rfl⟩
  · exact ⟨.mark "-", _, _, .additive, by decide, by decide, rfl, separates_sign fun _ => rfl⟩

/-! ## Kinds of texts -/

/-- A word begins with no equals sign and no dot. -/
theorem identifier_begins {name : String} (h : isIdentifier name) :
    ∃ c cs, name.toList = c :: cs ∧ c ≠ '=' ∧ c ≠ '.' := by
  unfold isIdentifier at h
  cases hText : name.toList with
  | nil => simp [hText] at h
  | cons c cs =>
      rw [hText] at h
      have hStart := (Bool.and_eq_true_iff.1 h).1
      refine ⟨c, cs, rfl, ?_, ?_⟩
      · rintro rfl
        exact absurd hStart (by decide)
      · rintro rfl
        exact absurd hStart (by decide)

namespace Spells

theorem word {name : String} (h : isIdentifier name) : Spells (text name) [.word name] where
  begins := by
    obtain ⟨c, cs, hText, hc, -⟩ := identifier_begins h
    exact begins_text hText hc
  lexes level rest out hStops hRest := by
    rw [Layout.render_text]
    exact lex_word h hStops hRest

theorem literal (content : String) : Spells (text (Text.quoted content)) [.text content] where
  begins := by
    exact begins_text (Text.toList_quoted content) (by decide)
  lexes level rest out _ hRest := by
    rw [Layout.render_text]
    exact lex_quoted content hRest

theorem parenthesized (h : Lexes a ts) :
    Spells a.parenthesized (.mark "(" :: (ts ++ [.mark ")"])) where
  begins := ((begins_text (by rfl : "(".toList = ['(']) (by decide)).append _).append _
  lexes := by
    have hOpen := Lexes.separator_append (separates_bracket (by decide : "(" ∈ _)) h
    have hText := hOpen.append_separator (separates_bracket (by decide : ")" ∈ _))
    simpa [Layout.parenthesized] using hText

/-- The parentheses of an operand are those of its tokens. -/
theorem operand {e : Expr} (need : Nat) (h : Spells a ts) :
    Spells (operand need e a) (operandTokens need e ts) := by
  unfold TypeScript.operand operandTokens
  split
  · exact parenthesized h.lexes
  · exact h

theorem joined (ha : Spells a ts) (hs : Separates separator us) (hb : Lexes b vs) :
    Spells (a ++ separator ++ b) (ts ++ (us ++ vs)) :=
  ⟨(ha.begins.append _).append _, ha.lexes.joined hs hb⟩

theorem member {name : String} (h : Spells a ts) (hName : isIdentifier name) :
    Spells (a ++ text "." ++ text name) (ts ++ [.mark ".", .word name]) where
  begins := (h.begins.append _).append _
  lexes level rest out hStops hRest := by
    have hWord := lex_word hName hStops hRest
    have hDot : lex ('.' :: (name.toList ++ rest)) = some (.mark "." :: .word name :: out) := by
      -- with another dot behind it, the dot could begin three of them
      obtain ⟨c, cs, hText, -, hc⟩ := identifier_begins hName
      refine lex_mark ?_ hWord
      rw [hText]
      simp [mark?, marks, Ne.symm hc]
    have hAll := h.lexes level _ _ (stops_cons (by decide) _) hDot
    simpa [toList_render_append, List.append_assoc] using hAll

/-- The text behind a `!` does not begin with an equals sign. -/
theorem not (h : Spells a ts) : Spells (text "!" ++ a) (.mark "!" :: ts) where
  begins := (begins_text (by rfl : "!".toList = ['!']) (by decide)).append _
  lexes level rest out hStops hRest := by
    obtain ⟨c, cs, hText, hc⟩ := h.begins level
    have hOperand := h.lexes level rest out hStops hRest
    rw [toList_render_append, Layout.render_text, hText]
    rw [hText] at hOperand
    -- of the longer punctuators that begin with `!`, each goes on with an equals sign
    refine lex_mark ?_ hOperand
    simp [mark?, marks, Ne.symm hc]

/-- A word and a blank in front of a text. -/
theorem behind {name : String} (hName : isIdentifier name) (h : Spells a ts) :
    Spells (text (name ++ " ") ++ a) (.word name :: ts) where
  begins := by
    obtain ⟨c, cs, hText, hc, -⟩ := identifier_begins hName
    have hWord : (name ++ " ").toList = c :: (cs ++ [' ']) := by
      rw [String.toList_append, hText]
      rfl
    exact (begins_text hWord hc).append _
  lexes level rest out hStops hRest := by
    have hBlank := (lex_blank _).trans (h.lexes level rest out hStops hRest)
    rw [toList_render_append, Layout.render_text, String.toList_append, List.append_assoc,
      List.append_assoc]
    exact lex_word hName (stops_cons (by decide) _) hBlank

/-- Something in brackets behind a text. -/
theorem bracketed {opening closing : String} (hOpening : opening ∈ ["(", ")", "[", "]"])
    (hClosing : closing ∈ ["(", ")", "[", "]"]) (ha : Spells a ts) (hb : Lexes b us) :
    Spells (a ++ (text opening ++ b ++ text closing))
      (ts ++ .mark opening :: (us ++ [.mark closing])) := by
  have hOpen := ha.joined (separates_bracket hOpening) hb
  have hText : Spells (a ++ text opening ++ b ++ text closing) _ :=
    ⟨hOpen.begins.append _, hOpen.lexes.append_separator (separates_bracket hClosing)⟩
  simpa using hText

end Spells

/-- **Expressions with commas between them.** If each is written as tokens that are read as the
expression, all together are written as tokens that are read as the list. -/
theorem exists_listed {One : Expr → List Token → Prop} {Many : List Expr → List Token → Prop}
    (hNil : Many [] []) (hSingle : ∀ {e ts}, One e ts → Many [e] ts)
    (hCons : ∀ {e es ts us}, One e ts → Many es us → Many (e :: es) (ts ++ .mark "," :: us)) :
    ∀ {values : List Expr}, (∀ e ∈ values, ∃ ts, Spells e.layout ts ∧ One e ts) →
      ∃ ts, Lexes (listed (Expr.layouts values)) ts ∧ Many values ts
  | [], _ => ⟨[], .nil, hNil⟩
  | [e], h => by
      obtain ⟨ts, hSpells, hOne⟩ := h e (List.mem_singleton_self _)
      refine ⟨ts, ?_, hSingle hOne⟩
      simpa [Expr.layouts, listed, Layout.separated] using hSpells.lexes
  | e :: next :: others, h => by
      obtain ⟨hFirst, hRest⟩ := List.forall_mem_cons.1 h
      obtain ⟨ts, hSpells, hOne⟩ := hFirst
      obtain ⟨us, hLexes, hMany⟩ := exists_listed hNil hSingle hCons hRest
      refine ⟨_, ?_, hCons hOne hMany⟩
      have hText := hSpells.lexes.joined separates_comma hLexes
      simpa [Expr.layouts, listed, Layout.separated, List.intercalate_cons_cons] using hText

/-! ## Legible expressions -/

/-- The text of an expression is written as tokens that are read as the expression. -/
def Legible (e : Expr) : Prop := ∃ ts, Spells e.layout ts ∧ Parsed e ts

/-- The texts of expressions with commas between them are written as tokens that are read as the
expressions. -/
def LegibleItems (values : List Expr) : Prop :=
  ∃ ts, Lexes (listed (Expr.layouts values)) ts ∧ ReadsItems values ts

namespace Legible

/-- An expression of one token. -/
theorem leaf {e : Expr} {t : Token} (hSpells : Spells e.layout [t])
    (hPrimary : ∀ rest, primary (t :: rest) = some (e, rest)) (hTight : e.precedence = 17) :
    Legible e :=
  ⟨[t], hSpells, .of_extends (.of_primary (List.cons_ne_nil _ _) hPrimary) hTight⟩

theorem ident {name : String} (hName : isIdentifier name) (hFree : name ∉ reserved) :
    Legible (.ident name) := by
  refine leaf (.word hName) (fun rest => ?_) rfl
  simp only [reserved, List.mem_cons, List.not_mem_nil, or_false, not_or] at hFree
  simp [primary, reserved, hFree]

theorem member {target : Expr} {name : String} (h : Legible target) (hName : isIdentifier name) :
    Legible (.member target name) := by
  obtain ⟨ts, hSpells, hParsed⟩ := h
  exact ⟨_, (hSpells.operand 17).member hName, .of_extends (hParsed.extends_operand.member name) rfl⟩

theorem index {target position : Expr} (h : Legible target) (hPosition : Legible position) :
    Legible (.index target position) := by
  obtain ⟨ts, hSpells, hParsed⟩ := h
  obtain ⟨us, hPositionSpells, hPositionParsed⟩ := hPosition
  refine ⟨_, ?_, .of_extends (hParsed.extends_operand.index hPositionParsed.anywhere) rfl⟩
  have hText := (hSpells.operand 17 (e := target)).bracketed (by decide : "[" ∈ _)
    (by decide : "]" ∈ _) hPositionSpells.lexes
  simpa [Expr.layout] using hText

theorem call {callee : Expr} {values : List Expr} (h : Legible callee)
    (hValues : LegibleItems values) : Legible (.call callee values) := by
  obtain ⟨ts, hSpells, hParsed⟩ := h
  obtain ⟨us, hLexes, hItems⟩ := hValues
  exact ⟨_, (hSpells.operand 17 (e := callee)).bracketed (by decide : "(" ∈ _)
    (by decide : ")" ∈ _) hLexes, .of_extends (hParsed.extends_operand.call hItems) rfl⟩

theorem array {values : List Expr} (hValues : LegibleItems values) : Legible (.array values) := by
  obtain ⟨us, hLexes, hItems⟩ := hValues
  refine ⟨_, ⟨?_, ?_⟩, .of_extends (.array hItems) rfl⟩
  · exact ((begins_text (by rfl : "[".toList = ['[']) (by decide)).append _).append _
  · exact (Lexes.separator_append (separates_bracket (by decide)) hLexes).append_separator
      (separates_bracket (by decide))

theorem not {target : Expr} (h : Legible target) : Legible (.unary "!" target) := by
  obtain ⟨ts, hSpells, hParsed⟩ := h
  have hReads := hParsed.reads_operand (by decide : 0 < 14) (by decide) (by decide)
  exact ⟨_, (hSpells.operand 14).not, .of_sign hReads.not rfl⟩

theorem typeOf {target : Expr} (h : Legible target) : Legible (.typeOf target) := by
  obtain ⟨ts, hSpells, hParsed⟩ := h
  have hReads := hParsed.reads_operand (by decide : 0 < 14) (by decide) (by decide)
  exact ⟨_, (hSpells.operand 14).behind (by decide : isIdentifier "typeof"),
    .of_sign hReads.typeOf rfl⟩

theorem cast {target : Expr} {name : String} (h : Legible target) (hName : isIdentifier name) :
    Legible (.cast target (.named name)) := by
  obtain ⟨ts, hSpells, hParsed⟩ := h
  have hResumes := (hParsed.resumes_operand .relational).cast name .relational (by decide)
  refine ⟨_, ?_, .of_resumes .relational rfl hResumes⟩
  exact (hSpells.operand 9).joined separates_as (Spells.word hName).lexes

theorem conditional {condition positive negative : Expr} (hCondition : Legible condition)
    (hPositive : Legible positive) (hNegative : Legible negative) :
    Legible (.conditional condition positive negative) := by
  obtain ⟨cs, hcSpells, hcParsed⟩ := hCondition
  obtain ⟨ps, hpSpells, hpParsed⟩ := hPositive
  obtain ⟨qs, hqSpells, hqParsed⟩ := hNegative
  have hReads := Reads.conditional
    (hcParsed.reads_operand (by decide) (by decide) (by decide))
    (hpParsed.reads_operand (by decide) (by decide) (by decide))
    (hqParsed.reads_operand (by decide) (by decide) (by decide))
  refine ⟨_, ?_, .of_loose hReads (Nat.le_refl 2)⟩
  have hFirst := (hcSpells.operand 3 (e := condition)).joined separates_then
    (hpSpells.operand 1 (e := positive)).lexes
  have hText := hFirst.joined separates_else (hqSpells.operand 1 (e := negative)).lexes
  simpa [Expr.layout] using hText

theorem binary {left right : Expr} {operator : String} (hOperator : operator ∈ binaryOperators)
    (hLeft : Legible left) (hRight : Legible right) : Legible (.binary left operator right) := by
  obtain ⟨t, operators, tighter, level, hMem, hAs, hContent, hSeparates⟩ :=
    operator_token hOperator
  obtain ⟨ts, hLeftSpells, hLeftParsed⟩ := hLeft
  obtain ⟨us, hRightSpells, hRightParsed⟩ := hRight
  have hAssign : operator ≠ "=" := by
    rintro rfl
    exact absurd hOperator (by decide)
  have hBound : operatorPrecedence operator + 1 ≤ 17 := by
    have := operatorPrecedence_le operator
    omega
  have hPlace : operatorPrecedence operator + 1 ≠ 2 := by
    generalize operatorPrecedence operator = n at level
    cases level <;> decide
  -- the left operand may be of the same level, the right one has to bind tighter
  have hResumes := (hLeftParsed.resumes_operand level).binary level hMem hAs
    (hRightParsed.reads_operand (Nat.succ_pos _) hBound hPlace)
  rw [hContent] at hResumes
  refine ⟨_, ?_, .of_resumes level rfl hResumes⟩
  have hText := (hLeftSpells.operand (operatorPrecedence operator) (e := left)).joined hSeparates
    (hRightSpells.operand (operatorPrecedence operator + 1) (e := right)).lexes
  simpa [Expr.layout, leftNeed, rightNeed, hAssign] using hText

theorem assign {target value : Expr} (hTarget : target.isTarget) (hLeft : Legible target)
    (hRight : Legible value) : Legible (.binary target "=" value) := by
  obtain ⟨ts, hLeftSpells, hLeftParsed⟩ := hLeft
  obtain ⟨us, hRightSpells, hRightParsed⟩ := hRight
  -- whatever may be assigned to binds tightest, so no parentheses are put around it
  have hTight : target.precedence = 17 := by
    cases target <;> first | rfl | cases hTarget
  have hLeftReads : Reads 2 target ts := (hLeftParsed.extend hTight).reads (by decide) (by decide)
  have hReads := Reads.assign hTarget hLeftReads
    (hRightParsed.reads_operand (by decide) (by decide) (by decide))
  have hSeparates : Separates (text " " ++ text "=" ++ text " ") [.mark "="] :=
    separates_sign fun _ => rfl
  refine ⟨_, ?_, .of_loose hReads (by decide : operatorPrecedence "=" ≤ 2)⟩
  have hText := hLeftSpells.joined hSeparates (hRightSpells.operand 1 (e := value)).lexes
  have hOperand : operand 2 target target.layout = target.layout := by
    rw [operand, hTight, if_neg (by decide)]
  have hNeeds : leftNeed "=" = 2 ∧ rightNeed "=" = 1 := by decide
  simpa [Expr.layout, hNeeds, hOperand] using hText

end Legible

namespace LegibleItems

theorem of_all {values : List Expr} (h : ∀ e ∈ values, Legible e) : LegibleItems values :=
  exists_listed .nil (fun h => .singleton h.anywhere) (fun h hMore => .cons h.anywhere hMore) h

end LegibleItems

/-! ## Reading back -/

/-- The expressions that the reader knows: their names are identifiers, those of variables no
reserved words; a type is a name; and an assignment is to something that may be assigned to. -/
inductive Expr.Readable : Expr → Prop
  | ident {name : String} (hName : isIdentifier name) (hFree : name ∉ reserved) :
      Readable (.ident name)
  | thisRef : Readable .thisRef
  | null : Readable .null
  | bool (value : Bool) : Readable (.bool value)
  | string (value : String) : Readable (.string value)
  | member {target : Expr} {name : String} (h : Readable target) (hName : isIdentifier name) :
      Readable (.member target name)
  | index {target position : Expr} (h : Readable target) (hPosition : Readable position) :
      Readable (.index target position)
  | call {callee : Expr} {arguments : List Expr} (h : Readable callee)
      (hArguments : ∀ e ∈ arguments, Readable e) : Readable (.call callee arguments)
  | array {values : List Expr} (hValues : ∀ e ∈ values, Readable e) : Readable (.array values)
  | not {target : Expr} (h : Readable target) : Readable (.unary "!" target)
  | typeOf {target : Expr} (h : Readable target) : Readable (.typeOf target)
  | cast {target : Expr} {name : String} (h : Readable target) (hName : isIdentifier name) :
      Readable (.cast target (.named name))
  | conditional {condition positive negative : Expr} (hCondition : Readable condition)
      (hPositive : Readable positive) (hNegative : Readable negative) :
      Readable (.conditional condition positive negative)
  | binary {left right : Expr} {operator : String} (hOperator : operator ∈ binaryOperators)
      (hLeft : Readable left) (hRight : Readable right) : Readable (.binary left operator right)
  | assign {target value : Expr} (hTarget : target.isTarget) (hLeft : Readable target)
      (hRight : Readable value) : Readable (.binary target "=" value)

theorem Expr.Readable.legible {e : Expr} (h : e.Readable) : Legible e := by
  induction h with
  | ident hName hFree => exact .ident hName hFree
  | thisRef => exact .leaf (.word (by decide)) (fun _ => by simp [primary]) rfl
  | null => exact .leaf (.word (by decide)) (fun _ => by simp [primary]) rfl
  | bool value =>
      cases value with
      | true => exact .leaf (.word (by decide)) (fun _ => by simp [primary]) rfl
      | false => exact .leaf (.word (by decide)) (fun _ => by simp [primary]) rfl
  | string value => exact .leaf (.literal value) (fun _ => by simp [primary]) rfl
  | member _ hName ih => exact ih.member hName
  | index _ _ ih ihPosition => exact ih.index ihPosition
  | call _ _ ih ihArguments => exact ih.call (.of_all ihArguments)
  | array _ ihValues => exact .array (.of_all ihValues)
  | not _ ih => exact ih.not
  | typeOf _ ih => exact ih.typeOf
  | cast _ hName ih => exact ih.cast hName
  | conditional _ _ _ ihCondition ihPositive ihNegative =>
      exact ihCondition.conditional ihPositive ihNegative
  | binary hOperator _ _ ihLeft ihRight => exact ihLeft.binary hOperator ihRight
  | assign hTarget _ _ ihLeft ihRight => exact ihLeft.assign hTarget ihRight

/-- **A printed expression is read back as itself**, at whatever depth it is printed, and the reader
uses up the whole text. -/
theorem read_text {e : Expr} (h : e.Readable) (level : Nat) : Expr.read (e.text level) = some e := by
  obtain ⟨ts, hSpells, hParsed⟩ := h.legible
  have hTokens : lex (e.text level).toList = some ts := by
    have hText := hSpells.lexes level [] [] (fun _ h => by cases h) lex_nil
    simpa [Expr.text] using hText
  -- nothing is left, and the end of the text is weaker than every place
  have hTree : assignment ts = some (e, []) := by
    have hReads := hParsed.anywhere.reads [] (by decide)
    simpa [readAt] using hReads
  rw [Expr.read, hTokens, Option.bind_some, hTree]

/-- An assignment of a choice whose condition is a choice itself, with a difference on the right of
a difference and a `!` in front of an assertion. -/
def nestedChoice : Expr :=
  .assign (.member .thisRef "spot")
    (.conditional (.conditional (.ident "a") .null (.bool true))
      (.binary (.ident "b") "-" (.binary (.ident "c") "-" (.string "d\n")))
      (.unary "!" (.cast (.call (.ident "f") [.ident "g", .array []]) (.named "T"))))

theorem readable_nestedChoice : nestedChoice.Readable := by
  have hArguments : ∀ e ∈ [Expr.ident "g", .array []], e.Readable := by
    intro e he
    rcases List.mem_pair.1 he with rfl | rfl
    · exact .ident (by decide) (by decide)
    · exact .array fun _ h => absurd h List.not_mem_nil
  have hCondition : (Expr.conditional (.ident "a") .null (.bool true)).Readable :=
    .conditional (.ident (by decide) (by decide)) .null (.bool true)
  have hDifference : (Expr.binary (.ident "c") "-" (.string "d\n")).Readable :=
    .binary (by decide) (.ident (by decide) (by decide)) (.string _)
  have hCall : (Expr.call (.ident "f") [.ident "g", .array []]).Readable :=
    .call (.ident (by decide) (by decide)) hArguments
  exact .assign rfl (.member .thisRef (by decide)) (.conditional hCondition
    (.binary (by decide) (.ident (by decide) (by decide)) hDifference)
    (.not (.cast hCall (by decide))))

theorem read_text_nestedChoice :
    nestedChoice.text 2 =
        "this.spot = (a ? null : true) ? b - (c - \"d\\n\") : !(f(g, []) as T)" ∧
      Expr.read (nestedChoice.text 2) = some nestedChoice :=
  ⟨by decide +kernel, read_text readable_nestedChoice 2⟩

end Protoscribe.TypeScript

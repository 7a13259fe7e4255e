import Protoscribe.Proofs.TypeScript.Grammar

set_option autoImplicit false

/-! # What is read where

The functions of the reader are the readers of the places in which an expression can stand. A place
asks for a precedence, and `readAt` is its reader. A token that can go on behind an expression has a
strength (`Token.strength`): a place takes it up when it is at least as strong as the place asks for.
Main statement: `Parsed.reads_operand`, an expression whose tokens are put in parentheses exactly when
it binds looser than its place asks for is read there, up to the next weaker token.

Levels that group to the left never read their left operand on its own, because the operation goes on
behind it. So three statements are carried along: `Reads`, an expression is read and the reader
stops; `Resumes`, the reader of a level has it as its left operand and goes on; and `Extends`, it is
there and members, elements and calls may follow.
-/

namespace Protoscribe.TypeScript

/-! ## Strength -/

/-- How tight a token holds on to what stands in front of it, as a precedence; zero when no
expression goes on with it. -/
def Token.strength (t : Token) : Nat :=
  if t ∈ [.mark ".", .mark "[", .mark "("] then 17
  else if t = .mark "?" then 2
  else if t = .word "as" then 9
  else if t = .mark "=" ∨ t ∈ levels.flatten then operatorPrecedence t.content
  else 0

/-- The strength of the first token; the end of the tokens is weaker than everything. -/
def strength : List Token → Nat
  | [] => 0
  | t :: _ => t.strength

variable {α β : Type} {e : Expr} {ts rest : List Token} {n : Nat} {operators : List Token}
  {tighter : List (List Token)}

theorem strength_lt {t : Token} (h : t.strength < n) : strength (t :: rest) < n := h

theorem consume_some {part : α}
    {next : α → (rest : List Token) → rest.length < ts.length → Option β}
    (h : rest.length < ts.length) : consume ts (some (part, rest)) next = next part rest h := by
  simp only [consume, dif_pos h]

theorem past_of_mem {signs : List Token} {t : Token} {otherwise : Option β}
    {next : Token → (behind : List Token) → behind.length < (t :: rest).length → Option β}
    (h : t ∈ signs) :
    past signs (t :: rest) otherwise next = next t rest (Nat.lt_succ_self _) := by
  simp only [past, if_pos h]

/-- What is weaker than all of the signs is none of them. -/
theorem past_of_weak {signs : List Token} {otherwise : Option β}
    {next : Token → (behind : List Token) → behind.length < ts.length → Option β}
    (hSigns : ∀ t ∈ signs, n ≤ t.strength) (h : strength ts < n) :
    past signs ts otherwise next = otherwise := by
  cases ts with
  | nil => rfl
  | cons t rest =>
      have hNot : t ∉ signs := fun hMem => Nat.not_lt.2 (hSigns t hMem) h
      simp only [past, if_neg hNot]

theorem named_word {name : String}
    {next : String → (behind : List Token) → behind.length < (Token.word name :: rest).length →
      Option β} :
    named (.word name :: rest) next = next name rest (Nat.lt_succ_self _) := rfl

theorem closed_some {sign : Token} {part : α} :
    closed sign (some (part, sign :: rest)) = some (part, rest) := by
  simp [closed, past]

/-! ## Places -/

/-- The levels of binary operators: the precedence of a level, its operators, and the levels that
bind tighter. -/
inductive IsLevel : Nat → List Token → List (List Token) → Prop
  | or : IsLevel 3 [.mark "||"] (levels.drop 1)
  | and : IsLevel 4 [.mark "&&"] (levels.drop 2)
  | equality : IsLevel 8 [.mark "==", .mark "!=", .mark "===", .mark "!=="] (levels.drop 3)
  | relational : IsLevel 9
      [.mark "<", .mark ">", .mark "<=", .mark ">=", .word "in", .word "instanceof", .word "as"]
      (levels.drop 4)
  | additive : IsLevel 11 [.mark "+", .mark "-"] []

/-- The reader of a place that asks for a precedence. -/
def readAt (need : Nat) : List Token → Option (Expr × List Token) :=
  if need ≤ 1 then assignment
  else if need ≤ 2 then choice
  else if need ≤ 3 then binary levels
  else if need ≤ 4 then binary (levels.drop 1)
  else if need ≤ 8 then binary (levels.drop 2)
  else if need ≤ 9 then binary (levels.drop 3)
  else if need ≤ 11 then binary (levels.drop 4)
  else if need ≤ 14 then binary []
  else suffixed

theorem IsLevel.readAt_eq (level : IsLevel n operators tighter) :
    readAt n = binary (operators :: tighter) ∧ readAt (n + 1) = binary tighter := by
  cases level <;> exact ⟨rfl, rfl⟩

theorem IsLevel.unique {others : List Token} {looser : List (List Token)}
    (level : IsLevel n operators tighter) (other : IsLevel n others looser) :
    others = operators ∧ looser = tighter := by
  cases level <;> cases other <;> exact ⟨rfl, rfl⟩

theorem IsLevel.strength_eq (level : IsLevel n operators tighter) :
    ∀ t ∈ operators, t.strength = n := by
  cases level <;> decide +kernel

/-- What is weaker than a level is none of its operators. -/
theorem IsLevel.past_operators (level : IsLevel n operators tighter) {otherwise : Option β}
    {next : Token → (behind : List Token) → behind.length < ts.length → Option β}
    (h : strength ts < n) : past operators ts otherwise next = otherwise :=
  past_of_weak (fun t ht => Nat.le_of_eq (level.strength_eq t ht).symm) h

/-- From one precedence to the next there is a step of the grammar or no difference. -/
theorem readAt_steps (hn : 0 < n) :
    n = 1 ∨ n = 2 ∨ n = 14 ∨ (∃ operators tighter, IsLevel n operators tighter) ∨
      readAt n = readAt (n + 1) := by
  match n, hn with
  | 1, _ => exact .inl rfl
  | 2, _ => exact .inr (.inl rfl)
  | 3, _ => exact .inr (.inr (.inr (.inl ⟨_, _, .or⟩)))
  | 4, _ => exact .inr (.inr (.inr (.inl ⟨_, _, .and⟩)))
  | 8, _ => exact .inr (.inr (.inr (.inl ⟨_, _, .equality⟩)))
  | 9, _ => exact .inr (.inr (.inr (.inl ⟨_, _, .relational⟩)))
  | 11, _ => exact .inr (.inr (.inr (.inl ⟨_, _, .additive⟩)))
  | 14, _ => exact .inr (.inr (.inl rfl))
  | 5, _ | 6, _ | 7, _ | 10, _ | 12, _ | 13, _ => exact .inr (.inr (.inr (.inr rfl)))
  -- from here on all places are operands with members, elements and calls
  | k + 15, _ => exact .inr (.inr (.inr (.inr rfl)))

/-- The signs in front of an operand are no operands. -/
theorem unary_of_suffixed (h : suffixed ts = some (e, rest)) : unary ts = some (e, rest) := by
  cases ts with
  | nil => simp [suffixed, primary, consume] at h
  | cons t ts =>
      have hNot : t ≠ .mark "!" := by
        rintro rfl
        simp [suffixed, primary, consume] at h
      have hTypeOf : t ≠ .word "typeof" := by
        rintro rfl
        simp [suffixed, primary, consume, reserved] at h
      simp [unary, past, hNot, hTypeOf, h]

/-- **A tighter expression is read in a looser place**, if what follows is too weak for it. -/
theorem readAt_of_succ (hn : 0 < n) (h : readAt (n + 1) ts = some (e, rest))
    (hLess : rest.length < ts.length) (hWeak : strength rest < n) :
    readAt n ts = some (e, rest) := by
  obtain rfl | rfl | rfl | ⟨operators, tighter, level⟩ | hSame := readAt_steps hn
  · change choice ts = some (e, rest) at h
    change assignment ts = some (e, rest)
    rw [assignment, h, consume_some hLess, past_of_weak (by decide +kernel) hWeak]
  · change binary levels ts = some (e, rest) at h
    change choice ts = some (e, rest)
    rw [choice, h, consume_some hLess, past_of_weak (by decide +kernel) hWeak]
  · change suffixed ts = some (e, rest) at h
    change binary [] ts = some (e, rest)
    rw [binary, unary_of_suffixed h]
  · obtain ⟨hHere, hTighter⟩ := level.readAt_eq
    rw [hTighter] at h
    rw [hHere, binary, h, consume_some hLess, binaryRest, level.past_operators hWeak]
  · rwa [hSame]

/-! ## Reading up to a weaker token -/

/-- The tokens are read as an expression by the reader of a place, which stops in front of whatever
is weaker than the place asks for. -/
structure Reads (need : Nat) (e : Expr) (ts : List Token) : Prop where
  nonempty : ts ≠ []
  reads : ∀ rest, strength rest < need → readAt need (ts ++ rest) = some (e, rest)

/-- The reader of a level has the tokens as its left operand and goes on behind them. -/
structure Resumes (need : Nat) (operators : List Token) (tighter : List (List Token)) (e : Expr)
    (ts : List Token) : Prop where
  nonempty : ts ≠ []
  resumes : ∀ rest, strength rest ≤ need →
    binary (operators :: tighter) (ts ++ rest) = binaryRest operators tighter e rest

/-- Members, elements and calls may follow the tokens, whatever they are. -/
structure Extends (e : Expr) (ts : List Token) : Prop where
  nonempty : ts ≠ []
  extend : ∀ rest, suffixed (ts ++ rest) = suffixes e rest

theorem length_lt_append (h : ts ≠ []) : rest.length < (ts ++ rest).length := by
  have hPos := List.length_pos_of_ne_nil h
  rw [List.length_append]
  omega

theorem length_lt_append_cons (ts : List Token) (t : Token) :
    rest.length < (ts ++ t :: rest).length := by
  rw [List.length_append, List.length_cons]
  omega

/-- What is read in its place is read in every looser place. -/
theorem Reads.loosen {need : Nat} (h : Reads need e ts) (hn : 0 < n) (hLe : n ≤ need) :
    Reads n e ts := by
  obtain ⟨k, rfl⟩ := Nat.exists_eq_add_of_le hLe
  refine ⟨h.nonempty, fun rest hWeak => ?_⟩
  -- down from the place where the tokens are read, one step at a time
  have hDown : ∀ j ≤ k, readAt (n + (k - j)) (ts ++ rest) = some (e, rest) := by
    intro j
    induction j with
    | zero => exact fun _ => h.reads rest (by omega)
    | succ j ih =>
        intro hj
        have hStep := ih (by omega)
        rw [show n + (k - j) = n + (k - (j + 1)) + 1 by omega] at hStep
        exact readAt_of_succ (Nat.add_pos_left hn _) hStep (length_lt_append h.nonempty) (by omega)
  simpa using hDown k (Nat.le_refl k)

/-- What binds tighter than a level is a left operand of the level. -/
theorem Reads.resumes_of_tighter (level : IsLevel n operators tighter) (h : Reads (n + 1) e ts) :
    Resumes n operators tighter e ts := by
  refine ⟨h.nonempty, fun rest hWeak => ?_⟩
  have hRead := h.reads rest (by omega)
  rw [level.readAt_eq.2] at hRead
  rw [binary, hRead, consume_some (length_lt_append h.nonempty)]

theorem Resumes.reads (level : IsLevel n operators tighter) (h : Resumes n operators tighter e ts) :
    Reads n e ts := by
  refine ⟨h.nonempty, fun rest hWeak => ?_⟩
  rw [level.readAt_eq.1, h.resumes rest (by omega), binaryRest, level.past_operators hWeak]

theorem Extends.reads (h : Extends e ts) (hn : 0 < n) (hLe : n ≤ 17) : Reads n e ts := by
  have hTight : Reads 17 e ts := by
    refine ⟨h.nonempty, fun rest hWeak => ?_⟩
    change suffixed (ts ++ rest) = some (e, rest)
    rw [h.extend, suffixes, past_of_weak (by decide +kernel) hWeak]
  exact hTight.loosen hn hLe

/-! ## The kinds of expressions -/

theorem Extends.of_primary (hTokens : ts ≠ []) (h : ∀ rest, primary (ts ++ rest) = some (e, rest)) :
    Extends e ts := by
  refine ⟨hTokens, fun rest => ?_⟩
  rw [suffixed, h, consume_some (length_lt_append hTokens)]

theorem Extends.parenthesized (h : Reads 1 e ts) :
    Extends e (.mark "(" :: (ts ++ [.mark ")"])) := by
  refine .of_primary (List.cons_ne_nil _ _) fun rest => ?_
  have hInner : assignment (ts ++ .mark ")" :: rest) = some (e, .mark ")" :: rest) :=
    h.reads _ (strength_lt (by decide +kernel))
  rw [List.cons_append, List.append_assoc, List.singleton_append, primary, if_pos rfl, hInner,
    closed_some]

theorem Extends.member (h : Extends e ts) (name : String) :
    Extends (.member e name) (ts ++ [.mark ".", .word name]) := by
  refine ⟨List.append_ne_nil_of_left_ne_nil h.nonempty _, fun rest => ?_⟩
  calc suffixed ((ts ++ [.mark ".", .word name]) ++ rest)
      = suffixes e (.mark "." :: .word name :: rest) := by
        rw [List.append_assoc]
        exact h.extend _
    _ = suffixes (.member e name) rest := by
        rw [suffixes, past_of_mem (by decide), if_pos rfl, named_word]

theorem Extends.index {position : Expr} {inner : List Token} (h : Extends e ts)
    (hPosition : Reads 1 position inner) :
    Extends (.index e position) (ts ++ .mark "[" :: (inner ++ [.mark "]"])) := by
  refine ⟨List.append_ne_nil_of_left_ne_nil h.nonempty _, fun rest => ?_⟩
  have hInner : assignment (inner ++ .mark "]" :: rest) = some (position, .mark "]" :: rest) :=
    hPosition.reads _ (strength_lt (by decide +kernel))
  calc suffixed ((ts ++ .mark "[" :: (inner ++ [.mark "]"])) ++ rest)
      = suffixes e (.mark "[" :: (inner ++ .mark "]" :: rest)) := by
        rw [List.append_assoc, List.cons_append, List.append_assoc]
        exact h.extend _
    _ = suffixes (.index e position) rest := by
        rw [suffixes, past_of_mem (by decide), if_neg (by decide), if_pos rfl, hInner,
          closed_some, consume_some (length_lt_append_cons inner _)]

/-! ## Lists of expressions -/

/-- The tokens are read as a list of expressions in front of a closing sign. -/
def ReadsItems (values : List Expr) (ts : List Token) : Prop :=
  ∀ closing ∈ [Token.mark ")", .mark "]"], ∀ rest,
    items closing (ts ++ closing :: rest) = some (values, rest)

/-- No expression begins with a closing sign. -/
theorem assignment_closing {closing : Token} (h : closing ∈ [Token.mark ")", .mark "]"])
    (rest : List Token) : assignment (closing :: rest) = none := by
  have hPrimary : primary (closing :: rest) = none := by
    rcases List.mem_pair.1 h with rfl | rfl <;> simp [primary]
  have hUnary : unary (closing :: rest) = none := by
    rcases List.mem_pair.1 h with rfl | rfl <;> simp [unary, past, suffixed, hPrimary, consume]
  simp [assignment, choice, levels, binary, hUnary, consume]

theorem ReadsItems.nil : ReadsItems [] [] := by
  intro closing _ rest
  rw [List.nil_append, items, past_of_mem (List.mem_singleton_self _)]

/-- A list that does not end at once is read from its first expression on. -/
theorem items_of_reads {closing : Token} (hClosing : closing ∈ [Token.mark ")", .mark "]"])
    (h : Reads 1 e ts) (hWeak : strength rest < 1) :
    items closing (ts ++ rest) =
      past [.mark ","] rest (past [closing] rest none fun _ behind _ => some ([e], behind))
        fun _ more _ => (items closing more).map fun (others, behind) => (e :: others, behind) := by
  have hFirst : assignment (ts ++ rest) = some (e, rest) := h.reads rest hWeak
  obtain ⟨t, others, rfl⟩ := List.exists_cons_of_ne_nil h.nonempty
  -- a list that begins with a closing sign could not be read as an expression
  have hNot : t ∉ [closing] := by
    intro hMem
    rw [List.mem_singleton.1 hMem, List.cons_append, assignment_closing hClosing] at hFirst
    cases hFirst
  rw [items, List.cons_append, past, if_neg hNot, ← List.cons_append, hFirst,
    consume_some (length_lt_append h.nonempty)]

theorem ReadsItems.singleton (h : Reads 1 e ts) : ReadsItems [e] ts := by
  intro closing hClosing rest
  have hWeak : strength (closing :: rest) < 1 := by
    rcases List.mem_pair.1 hClosing with rfl | rfl <;> exact strength_lt (by decide +kernel)
  have hComma : closing ∉ [Token.mark ","] := by
    rcases List.mem_pair.1 hClosing with rfl | rfl <;> decide
  rw [items_of_reads hClosing h hWeak, past, if_neg hComma,
    past_of_mem (List.mem_singleton_self _)]

theorem ReadsItems.cons {values : List Expr} {more : List Token} (h : Reads 1 e ts)
    (hMore : ReadsItems values more) : ReadsItems (e :: values) (ts ++ .mark "," :: more) := by
  intro closing hClosing rest
  rw [List.append_assoc, List.cons_append, items_of_reads hClosing h (strength_lt (by decide +kernel)),
    past_of_mem (List.mem_singleton_self _), hMore closing hClosing rest]
  rfl

theorem Extends.call {values : List Expr} {inner : List Token} (h : Extends e ts)
    (hInner : ReadsItems values inner) :
    Extends (.call e values) (ts ++ .mark "(" :: (inner ++ [.mark ")"])) := by
  refine ⟨List.append_ne_nil_of_left_ne_nil h.nonempty _, fun rest => ?_⟩
  calc suffixed ((ts ++ .mark "(" :: (inner ++ [.mark ")"])) ++ rest)
      = suffixes e (.mark "(" :: (inner ++ .mark ")" :: rest)) := by
        rw [List.append_assoc, List.cons_append, List.append_assoc]
        exact h.extend _
    _ = suffixes (.call e values) rest := by
        rw [suffixes, past_of_mem (by decide), if_neg (by decide), if_neg (by decide),
          hInner (.mark ")") (by decide) rest, consume_some (length_lt_append_cons inner _)]

theorem Extends.array {values : List Expr} {inner : List Token} (hInner : ReadsItems values inner) :
    Extends (.array values) (.mark "[" :: (inner ++ [.mark "]"])) := by
  refine .of_primary (List.cons_ne_nil _ _) fun rest => ?_
  rw [List.cons_append, List.append_assoc, List.singleton_append, primary, if_neg (by decide),
    if_pos rfl, hInner (.mark "]") (by decide) rest]
  rfl

/-! ## Operations -/

/-- **An operation groups to the left**: its left operand may be an operation of the same level. -/
theorem Resumes.binary {left right : Expr} {inner others : List Token} {operator : Token}
    (level : IsLevel n operators tighter) (hLeft : Resumes n operators tighter left inner)
    (hOperator : operator ∈ operators) (hAs : operator ≠ .word "as")
    (hRight : Reads (n + 1) right others) :
    Resumes n operators tighter (.binary left operator.content right)
      (inner ++ operator :: others) := by
  refine ⟨List.append_ne_nil_of_left_ne_nil hLeft.nonempty _, fun rest hWeak => ?_⟩
  have hRead := hRight.reads rest (by omega)
  rw [level.readAt_eq.2] at hRead
  calc TypeScript.binary (operators :: tighter) ((inner ++ operator :: others) ++ rest)
      = binaryRest operators tighter left (operator :: (others ++ rest)) := by
        rw [List.append_assoc, List.cons_append]
        exact hLeft.resumes _ (Nat.le_of_eq (level.strength_eq operator hOperator))
    _ = binaryRest operators tighter (.binary left operator.content right) rest := by
        rw [binaryRest, past_of_mem hOperator, if_neg hAs, hRead,
          consume_some (length_lt_append hRight.nonempty)]

theorem Resumes.cast {target : Expr} {inner : List Token} (name : String)
    (level : IsLevel n operators tighter) (hAs : .word "as" ∈ operators)
    (hTarget : Resumes n operators tighter target inner) :
    Resumes n operators tighter (.cast target (.named name))
      (inner ++ [.word "as", .word name]) := by
  refine ⟨List.append_ne_nil_of_left_ne_nil hTarget.nonempty _, fun rest hWeak => ?_⟩
  calc TypeScript.binary (operators :: tighter) ((inner ++ [.word "as", .word name]) ++ rest)
      = binaryRest operators tighter target (.word "as" :: .word name :: rest) := by
        rw [List.append_assoc]
        exact hTarget.resumes _ (Nat.le_of_eq (level.strength_eq _ hAs))
    _ = binaryRest operators tighter (.cast target (.named name)) rest := by
        rw [binaryRest, past_of_mem hAs, if_pos rfl, named_word]

/-- The operand of `!` or `typeof` is a place like that of the operation itself. -/
theorem unary_of_reads (h : Reads 14 e ts) (hWeak : strength rest < 14) :
    unary (ts ++ rest) = some (e, rest) := by
  have hOperand : TypeScript.binary [] (ts ++ rest) = some (e, rest) := h.reads rest hWeak
  rwa [TypeScript.binary] at hOperand

theorem Reads.not {target : Expr} (h : Reads 14 target ts) :
    Reads 14 (.unary "!" target) (.mark "!" :: ts) := by
  refine ⟨List.cons_ne_nil _ _, fun rest hWeak => ?_⟩
  show TypeScript.binary [] (.mark "!" :: (ts ++ rest)) = some (.unary "!" target, rest)
  rw [TypeScript.binary, unary, past_of_mem (List.mem_singleton_self _), unary_of_reads h hWeak]
  rfl

theorem Reads.typeOf {target : Expr} (h : Reads 14 target ts) :
    Reads 14 (.typeOf target) (.word "typeof" :: ts) := by
  refine ⟨List.cons_ne_nil _ _, fun rest hWeak => ?_⟩
  show TypeScript.binary [] (.word "typeof" :: (ts ++ rest)) = some (.typeOf target, rest)
  rw [TypeScript.binary, unary, past, if_neg (by decide), past_of_mem (List.mem_singleton_self _),
    unary_of_reads h hWeak]
  rfl

/-- The last part of a choice takes up an assignment behind it, so a choice is read up to its end
only where an assignment may stand. -/
theorem Reads.conditional {condition positive negative : Expr} {cs ps qs : List Token}
    (hCondition : Reads 3 condition cs) (hPositive : Reads 1 positive ps)
    (hNegative : Reads 1 negative qs) :
    Reads 1 (.conditional condition positive negative)
      (cs ++ .mark "?" :: (ps ++ .mark ":" :: qs)) := by
  refine ⟨List.append_ne_nil_of_left_ne_nil hCondition.nonempty _, fun rest hWeak => ?_⟩
  have hFirst : TypeScript.binary levels (cs ++ .mark "?" :: (ps ++ .mark ":" :: (qs ++ rest))) =
      some (condition, .mark "?" :: (ps ++ .mark ":" :: (qs ++ rest))) :=
    hCondition.reads _ (strength_lt (by decide +kernel))
  have hSecond : assignment (ps ++ .mark ":" :: (qs ++ rest)) =
      some (positive, .mark ":" :: (qs ++ rest)) :=
    hPositive.reads _ (strength_lt (by decide +kernel))
  have hThird : assignment (qs ++ rest) = some (negative, rest) := hNegative.reads rest hWeak
  have hChoice : choice (cs ++ .mark "?" :: (ps ++ .mark ":" :: (qs ++ rest))) =
      some (.conditional condition positive negative, rest) := by
    rw [choice, hFirst, consume_some (length_lt_append hCondition.nonempty),
      past_of_mem (List.mem_singleton_self _), hSecond,
      consume_some (length_lt_append hPositive.nonempty),
      past_of_mem (List.mem_singleton_self _), hThird]
    rfl
  have hLess : rest.length < (cs ++ .mark "?" :: (ps ++ .mark ":" :: (qs ++ rest))).length := by
    simp only [List.length_append, List.length_cons]
    omega
  calc assignment ((cs ++ .mark "?" :: (ps ++ .mark ":" :: qs)) ++ rest)
      = assignment (cs ++ .mark "?" :: (ps ++ .mark ":" :: (qs ++ rest))) := by
        simp only [List.append_assoc, List.cons_append]
    _ = some (.conditional condition positive negative, rest) := by
        rw [assignment, hChoice, consume_some hLess, past_of_weak (by decide +kernel) hWeak]

theorem Reads.assign {target value : Expr} {inner others : List Token} (hTarget : target.isTarget)
    (hLeft : Reads 2 target inner) (hValue : Reads 1 value others) :
    Reads 1 (.binary target "=" value) (inner ++ .mark "=" :: others) := by
  refine ⟨List.append_ne_nil_of_left_ne_nil hLeft.nonempty _, fun rest hWeak => ?_⟩
  have hChoice : choice (inner ++ .mark "=" :: (others ++ rest)) =
      some (target, .mark "=" :: (others ++ rest)) := hLeft.reads _ (strength_lt (by decide +kernel))
  have hRight : assignment (others ++ rest) = some (value, rest) := hValue.reads rest hWeak
  calc assignment ((inner ++ .mark "=" :: others) ++ rest)
      = assignment (inner ++ .mark "=" :: (others ++ rest)) := by
        rw [List.append_assoc, List.cons_append]
    _ = some (.binary target "=" value, rest) := by
        rw [assignment, hChoice, consume_some (length_lt_append hLeft.nonempty),
          past_of_mem (List.mem_singleton_self _), if_pos hTarget, hRight]
        rfl

/-! ## Operands -/

/-- What is known about the tokens of an expression: they are read where an assignment may stand,
and, unless it is an assignment or a choice, in the place that fits the expression itself. -/
structure Parsed (e : Expr) (ts : List Token) : Prop where
  anywhere : Reads 1 e ts
  reads : 2 < e.precedence → Reads e.precedence e ts
  resumes : ∀ operators tighter, IsLevel e.precedence operators tighter →
    Resumes e.precedence operators tighter e ts
  extend : e.precedence = 17 → Extends e ts

/-- The tokens of an operand, in parentheses when it binds looser than `need`. -/
def operandTokens (need : Nat) (e : Expr) (ts : List Token) : List Token :=
  if e.precedence < need then .mark "(" :: (ts ++ [.mark ")"]) else ts

theorem operatorPrecedence_le (operator : String) : operatorPrecedence operator ≤ 12 := by
  unfold operatorPrecedence
  split_ifs <;> decide

theorem precedence_le (e : Expr) : e.precedence ≤ 17 := by
  cases e with
  | binary left operator right => exact Nat.le_trans (operatorPrecedence_le operator) (by decide)
  | _ => simp [Expr.precedence]

namespace Parsed

theorem of_extends (h : Extends e ts) (hTight : e.precedence = 17) : Parsed e ts where
  anywhere := h.reads (by decide) (by decide)
  reads _ := h.reads (by omega) (by omega)
  resumes operators tighter level := by
    rw [hTight] at level
    cases level
  extend _ := h

theorem of_resumes (level : IsLevel n operators tighter) (hLevel : e.precedence = n)
    (h : Resumes n operators tighter e ts) : Parsed e ts where
  anywhere := (h.reads level).loosen (by decide) (by cases level <;> decide)
  reads _ := by
    rw [hLevel]
    exact h.reads level
  resumes others looser other := by
    rw [hLevel] at other ⊢
    obtain ⟨rfl, rfl⟩ := level.unique other
    exact h
  extend hTight := by
    rw [← hLevel, hTight] at level
    cases level

theorem of_sign (h : Reads 14 e ts) (hSign : e.precedence = 14) : Parsed e ts where
  anywhere := h.loosen (by decide) (by decide)
  reads _ := by
    rw [hSign]
    exact h
  resumes operators tighter level := by
    rw [hSign] at level
    cases level
  extend hTight := by omega

/-- An assignment or a choice. -/
theorem of_loose (h : Reads 1 e ts) (hLoose : e.precedence ≤ 2) : Parsed e ts where
  anywhere := h
  reads hMore := by omega
  resumes operators tighter level := by
    generalize e.precedence = n at level hLoose
    cases level <;> omega
  extend hTight := by omega

/-- **An operand is read in its place.** A place on the left of an assignment is left out here. -/
theorem reads_operand (h : Parsed e ts) (hn : 0 < n) (hLe : n ≤ 17) (hPlace : n ≠ 2) :
    Reads n e (operandTokens n e ts) := by
  unfold operandTokens
  split
  · exact (Extends.parenthesized h.anywhere).reads hn hLe
  · -- only an assignment or a choice is looser than every place but the loosest
    rename_i hTight
    rcases Nat.lt_or_ge 1 n with hMore | hOne
    · exact (h.reads (by omega)).loosen hn (by omega)
    · obtain rfl : n = 1 := by omega
      exact h.anywhere

theorem resumes_operand (level : IsLevel n operators tighter) (h : Parsed e ts) :
    Resumes n operators tighter e (operandTokens n e ts) := by
  have hPos : 0 < n ∧ n + 1 ≤ 17 := by cases level <;> decide
  unfold operandTokens
  split
  · exact ((Extends.parenthesized h.anywhere).reads (by omega) hPos.2).resumes_of_tighter level
  · -- without parentheses it is of the same level, and its own operations come first, or tighter
    rename_i hTight
    rcases Nat.eq_or_lt_of_le (Nat.not_lt.1 hTight) with hSame | hMore
    · subst hSame
      exact h.resumes _ _ level
    · refine Reads.resumes_of_tighter level ((h.reads ?_).loosen (by omega) hMore)
      cases level <;> omega

theorem extends_operand (h : Parsed e ts) : Extends e (operandTokens 17 e ts) := by
  unfold operandTokens
  split
  · exact Extends.parenthesized h.anywhere
  · rename_i hTight
    exact h.extend (Nat.le_antisymm (precedence_le e) (by omega))

end Parsed

end Protoscribe.TypeScript

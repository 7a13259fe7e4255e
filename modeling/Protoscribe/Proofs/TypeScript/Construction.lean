import Protoscribe.Proofs.TypeScript.Grouping

set_option autoImplicit false

/-! # Constructions and calls

`new` takes up the first argument list behind it, so what it constructs must not be reached through
a call unless the call stands in parentheses. The layout puts none there: a call binds as tight as
the callee of a construction has to. Main statement: `same_text_iff`, two expressions made of names,
members, elements, calls and constructions have the same text exactly when they are the same after
every `new` has taken up the first argument list behind it (`Expr.regrouped`), and this is the
expression that the text is read as.

The expressions that regrouping leaves alone are read back as themselves (`read_of_regrouped`). An
expression and the regrouped one have the same text (`layout_regrouped`), so the first is read as
the second.
-/

namespace Protoscribe.TypeScript

open Layout (text listed)

/-! ## The reader -/

mutual

/-- A name or a construction with what stands behind it. Argument lists belong to it if `calls`
holds; behind `new` they do not, because the first one is that of the construction. -/
def chain (calls : Bool) (ts : List Token) : Option (Expr × List Token) :=
  past [.word "new"] ts (named ts fun name rest _ => links calls (.ident name) rest)
    fun _ rest _ =>
      consume rest (chain false rest) fun callee behind _ =>
        past [.mark "("] behind none fun _ inner _ =>
          consume inner (chains inner) fun arguments after _ =>
            links calls (.construct callee arguments) after
termination_by (ts.length, 1)

/-- The members and elements behind a part of a chain, and the calls if they belong to it. -/
def links (calls : Bool) (target : Expr) (ts : List Token) : Option (Expr × List Token) :=
  past (.mark "." :: .mark "[" :: if calls then [.mark "("] else []) ts (some (target, ts))
    fun sign rest _ =>
      if sign = .mark "." then
        named rest fun name behind _ => links calls (.member target name) behind
      else if sign = .mark "[" then
        consume rest (closed (.mark "]") (chain true rest)) fun position behind _ =>
          links calls (.index target position) behind
      else
        consume rest (chains rest) fun arguments behind _ =>
          links calls (.call target arguments) behind
termination_by (ts.length, 0)

/-- Chains with commas between them, up to a closing parenthesis. -/
def chains (ts : List Token) : Option (List Expr × List Token) :=
  past [.mark ")"] ts
    (consume ts (chain true ts) fun first rest _ =>
      past [.mark ","] rest (past [.mark ")"] rest none fun _ behind _ => some ([first], behind))
        fun _ more _ => (chains more).map fun (others, behind) => (first :: others, behind))
    fun _ rest _ => some ([], rest)
termination_by (ts.length, 2)

end

/-- The expression of names, members, elements, calls and constructions that a text is, read to the
end of the text. -/
def Expr.readChain (text : String) : Option Expr :=
  match (lex text.toList).bind (chain true) with
  | some (e, []) => some e
  | _ => none

/-! ## What `new` takes up -/

namespace Expr

/-- What becomes of an expression behind `new`: the first call among the members, elements and calls
that it is made of turns into a construction. Nothing if there is no such call. -/
def constructed? : Expr → Option Expr
  | .member target name => target.constructed?.map (.member · name)
  | .index target position => target.constructed?.map (.index · position)
  | .call callee arguments =>
    some (match callee.constructed? with
      | some built => .call built arguments
      | none => .construct callee arguments)
  | _ => none

/-- What is read when `new` stands in front of an expression and arguments behind it. -/
def constructing (callee : Expr) (arguments : List Expr) : Expr :=
  match callee.constructed? with
  | some built => .call built arguments
  | none => .construct callee arguments

mutual

/-- The expression in which every `new` has taken up the first argument list behind it. -/
def regrouped : Expr → Expr
  | .member target name => .member target.regrouped name
  | .index target position => .index target.regrouped position.regrouped
  | .call callee arguments => .call callee.regrouped (allRegrouped arguments)
  | .construct callee arguments => callee.regrouped.constructing (allRegrouped arguments)
  | e => e

def allRegrouped : List Expr → List Expr
  | [] => []
  | e :: rest => e.regrouped :: allRegrouped rest

end

mutual

/-- Whether nothing that is constructed is reached through a call. -/
def settled : Expr → Bool
  | .member target _ => target.settled
  | .index target position => target.settled && position.settled
  | .call callee arguments => callee.settled && allSettled arguments
  | .construct callee arguments =>
    callee.constructed?.isNone && callee.settled && allSettled arguments
  | _ => true

def allSettled : List Expr → Bool
  | [] => true
  | e :: rest => e.settled && allSettled rest

end

/-- The expressions made of names, members, elements, calls and constructions. A name may be any
identifier but `new`. -/
inductive IsChain : Expr → Prop
  | ident {name : String} (hName : isIdentifier name) (hNew : name ≠ "new") : IsChain (.ident name)
  | member {target : Expr} {name : String} (h : IsChain target) (hName : isIdentifier name) :
      IsChain (.member target name)
  | index {target position : Expr} (h : IsChain target) (hPosition : IsChain position) :
      IsChain (.index target position)
  | call {callee : Expr} {arguments : List Expr} (h : IsChain callee)
      (hArguments : ∀ e ∈ arguments, IsChain e) : IsChain (.call callee arguments)
  | construct {callee : Expr} {arguments : List Expr} (h : IsChain callee)
      (hArguments : ∀ e ∈ arguments, IsChain e) : IsChain (.construct callee arguments)

theorem allRegrouped_eq_map (es : List Expr) : allRegrouped es = es.map regrouped := by
  induction es with
  | nil => rfl
  | cons e es ih => rw [allRegrouped, ih, List.map_cons]

theorem allSettled_iff {es : List Expr} : allSettled es ↔ ∀ e ∈ es, e.settled := by
  induction es with
  | nil => simp [allSettled]
  | cons e es ih => simp [allSettled, ih]

theorem layouts_eq_map (es : List Expr) : Expr.layouts es = es.map layout := by
  induction es with
  | nil => rfl
  | cons e es ih => rw [Expr.layouts, ih, List.map_cons]

variable {e built callee : Expr} {arguments : List Expr}

theorem IsChain.precedence_eq (h : IsChain e) : e.precedence = 17 := by
  cases h <;> rfl

/-- No part of a chain stands in parentheses. -/
theorem IsChain.operand_eq (h : IsChain e) (layout : Layout) : operand 17 e layout = layout := by
  rw [operand, h.precedence_eq, if_neg (Nat.lt_irrefl 17)]

theorem IsChain.of_constructed (hBuilt : e.constructed? = some built) (h : IsChain e) :
    IsChain built := by
  induction h generalizing built with
  | ident => cases hBuilt
  | member _ hName ih =>
      obtain ⟨target, hTarget, rfl⟩ := Option.map_eq_some_iff.1 hBuilt
      exact (ih hTarget).member hName
  | index _ hPosition ih _ =>
      obtain ⟨target, hTarget, rfl⟩ := Option.map_eq_some_iff.1 hBuilt
      exact (ih hTarget).index hPosition
  | @call callee arguments h hArguments ih _ =>
      obtain rfl := Option.some.inj hBuilt
      cases hCallee : callee.constructed? with
      | some inner => exact (ih hCallee).call hArguments
      | none => exact h.construct hArguments
  | construct => cases hBuilt

/-- `new` in front of an expression is what is written for the constructed one. -/
theorem layout_of_constructed (hBuilt : e.constructed? = some built) (h : IsChain e) :
    built.layout = Layout.text "new " ++ e.layout := by
  induction h generalizing built with
  | ident => cases hBuilt
  | member h _ ih =>
      obtain ⟨target, hTarget, rfl⟩ := Option.map_eq_some_iff.1 hBuilt
      simp only [layout, (h.of_constructed hTarget).operand_eq, h.operand_eq, ih hTarget,
        List.append_assoc]
  | index h _ ih _ =>
      obtain ⟨target, hTarget, rfl⟩ := Option.map_eq_some_iff.1 hBuilt
      simp only [layout, (h.of_constructed hTarget).operand_eq, h.operand_eq, ih hTarget,
        List.append_assoc]
  | @call callee arguments h _ ih _ =>
      obtain rfl := Option.some.inj hBuilt
      cases hCallee : callee.constructed? with
      | some inner =>
          simp only [layout, (h.of_constructed hCallee).operand_eq, h.operand_eq, ih hCallee,
            List.append_assoc]
      | none => simp only [layout, List.append_assoc]
  | construct => cases hBuilt

theorem layout_constructing (h : IsChain callee) :
    (callee.constructing arguments).layout = (Expr.construct callee arguments).layout := by
  rw [constructing]
  cases hCallee : callee.constructed? with
  | some built =>
      simp only [layout, (h.of_constructed hCallee).operand_eq, h.operand_eq,
        layout_of_constructed hCallee h, List.append_assoc]
  | none => rfl

theorem IsChain.constructing (h : IsChain callee) (hArguments : ∀ e ∈ arguments, IsChain e) :
    IsChain (callee.constructing arguments) := by
  rw [Expr.constructing]
  cases hCallee : callee.constructed? with
  | some built => exact (h.of_constructed hCallee).call hArguments
  | none => exact h.construct hArguments

theorem IsChain.regrouped (h : IsChain e) : IsChain e.regrouped := by
  have hAll : ∀ {es : List Expr}, (∀ e ∈ es, IsChain e.regrouped) →
      ∀ e ∈ allRegrouped es, IsChain e := by
    intro es hes
    simpa [allRegrouped_eq_map] using hes
  induction h with
  | ident hName hNew => exact .ident hName hNew
  | member _ hName ih => exact ih.member hName
  | index _ _ ih ihPosition => exact ih.index ihPosition
  | call _ _ ih ihArguments => exact ih.call (hAll ihArguments)
  | construct _ _ ih ihArguments => exact ih.constructing (hAll ihArguments)

/-- **Regrouping does not change the text.** -/
theorem layout_regrouped (h : IsChain e) : e.regrouped.layout = e.layout := by
  have hAll : ∀ {es : List Expr}, (∀ e ∈ es, e.regrouped.layout = e.layout) →
      Expr.layouts (allRegrouped es) = Expr.layouts es := by
    intro es hes
    rw [layouts_eq_map, layouts_eq_map, allRegrouped_eq_map, List.map_map]
    exact List.map_congr_left hes
  induction h with
  | ident => rfl
  | member h _ ih =>
      simp only [Expr.regrouped, layout, h.regrouped.operand_eq, h.operand_eq, ih]
  | index h _ ih ihPosition =>
      simp only [Expr.regrouped, layout, h.regrouped.operand_eq, h.operand_eq, ih, ihPosition]
  | call h _ ih ihArguments =>
      simp only [Expr.regrouped, layout, h.regrouped.operand_eq, h.operand_eq, ih, hAll ihArguments]
  | construct h _ ih ihArguments =>
      rw [Expr.regrouped, layout_constructing h.regrouped]
      simp only [layout, h.regrouped.operand_eq, h.operand_eq, ih, hAll ihArguments]

/-! ## Settled expressions -/

theorem settled_of_constructed (hBuilt : e.constructed? = some built) (h : IsChain e)
    (hSettled : e.settled) : built.settled := by
  induction h generalizing built with
  | ident => cases hBuilt
  | member _ _ ih =>
      obtain ⟨target, hTarget, rfl⟩ := Option.map_eq_some_iff.1 hBuilt
      exact (ih hTarget hSettled : target.settled)
  | index _ _ ih _ =>
      obtain ⟨target, hTarget, rfl⟩ := Option.map_eq_some_iff.1 hBuilt
      obtain ⟨hFirst, hPosition⟩ := Bool.and_eq_true_iff.1 hSettled
      exact Bool.and_eq_true_iff.2 ⟨ih hTarget hFirst, hPosition⟩
  | @call callee arguments _ _ ih _ =>
      obtain rfl := Option.some.inj hBuilt
      obtain ⟨hCallee, hArguments⟩ := Bool.and_eq_true_iff.1 hSettled
      cases hBuilt : callee.constructed? with
      | some inner => exact Bool.and_eq_true_iff.2 ⟨ih hBuilt hCallee, hArguments⟩
      | none => simp [settled, hBuilt, hCallee, hArguments]
  | construct => cases hBuilt

theorem settled_constructing (h : IsChain callee) (hCallee : callee.settled)
    (hArguments : allSettled arguments) : (callee.constructing arguments).settled := by
  rw [constructing]
  cases hBuilt : callee.constructed? with
  | some built => simp [settled, settled_of_constructed hBuilt h hCallee, hArguments]
  | none => simp [settled, hBuilt, hCallee, hArguments]

theorem settled_regrouped (h : IsChain e) : e.regrouped.settled := by
  have hAll : ∀ {es : List Expr}, (∀ e ∈ es, e.regrouped.settled) →
      allSettled (allRegrouped es) := by
    intro es hes
    rw [allSettled_iff, allRegrouped_eq_map]
    simpa using hes
  induction h with
  | ident => rfl
  | member _ _ ih => exact ih
  | index _ _ ih ihPosition => simp [Expr.regrouped, settled, ih, ihPosition]
  | call _ _ ih ihArguments => simp [Expr.regrouped, settled, ih, hAll ihArguments]
  | construct h _ ih ihArguments =>
      exact settled_constructing h.regrouped ih (hAll ihArguments)

theorem regrouped_of_settled (h : IsChain e) (hSettled : e.settled) : e.regrouped = e := by
  have hAll : ∀ {es : List Expr}, (∀ e ∈ es, e.settled → e.regrouped = e) → allSettled es →
      allRegrouped es = es := by
    intro es hes hSettled
    rw [allRegrouped_eq_map]
    exact (List.map_congr_left fun e he => hes e he (allSettled_iff.1 hSettled e he)).trans
      (List.map_id es)
  induction h with
  | ident => rfl
  | member _ _ ih => rw [Expr.regrouped, ih hSettled]
  | index _ _ ih ihPosition =>
      obtain ⟨hTarget, hPosition⟩ := Bool.and_eq_true_iff.1 hSettled
      rw [Expr.regrouped, ih hTarget, ihPosition hPosition]
  | call _ _ ih ihArguments =>
      obtain ⟨hCallee, hArguments⟩ := Bool.and_eq_true_iff.1 hSettled
      rw [Expr.regrouped, ih hCallee, hAll ihArguments hArguments]
  | construct _ _ ih ihArguments =>
      simp only [settled, Bool.and_eq_true, Option.isNone_iff_eq_none] at hSettled
      obtain ⟨⟨hFree, hCallee⟩, hArguments⟩ := hSettled
      rw [Expr.regrouped, ih hCallee, hAll ihArguments hArguments, Expr.constructing, hFree]

/-- **What regrouping leaves alone**: the expressions in which nothing that is constructed is reached
through a call. -/
theorem regrouped_eq_iff (h : IsChain e) : e.regrouped = e ↔ e.settled :=
  ⟨fun hSame => hSame ▸ settled_regrouped h, regrouped_of_settled h⟩

end Expr

/-! ## Reading chains -/

/-- The tokens are read as the expression, and the links behind them follow. In the callee of a
construction the expression must have no call of its own. -/
structure Takes (e : Expr) (ts : List Token) : Prop where
  nonempty : ts ≠ []
  takes : ∀ calls rest, (calls = false → e.constructed? = none) →
    chain calls (ts ++ rest) = links calls e rest

/-- The tokens are read as a list of chains in front of a closing parenthesis. -/
def ReadsChains (values : List Expr) (ts : List Token) : Prop :=
  ∀ rest, chains (ts ++ .mark ")" :: rest) = some (values, rest)

variable {e : Expr} {ts : List Token}

theorem links_end {t : Token} (ht : t ∉ [Token.mark ".", .mark "[", .mark "("]) (calls : Bool)
    (rest : List Token) : links calls e (t :: rest) = some (e, t :: rest) := by
  have hNot : t ∉ Token.mark "." :: .mark "[" :: if calls then [.mark "("] else [] := by
    cases calls <;> simp_all
  rw [links, past, if_neg hNot]

namespace Takes

theorem ident {name : String} (hNew : name ≠ "new") : Takes (.ident name) [.word name] := by
  refine ⟨List.cons_ne_nil _ _, fun calls rest _ => ?_⟩
  rw [List.singleton_append, chain, past, if_neg (by simpa using hNew), named_word]

theorem member (h : Takes e ts) (name : String) :
    Takes (.member e name) (ts ++ [.mark ".", .word name]) := by
  refine ⟨List.append_ne_nil_of_left_ne_nil h.nonempty _, fun calls rest hFree => ?_⟩
  calc chain calls ((ts ++ [.mark ".", .word name]) ++ rest)
      = links calls e (.mark "." :: .word name :: rest) := by
        rw [List.append_assoc]
        exact h.takes _ _ fun hCalls => Option.map_eq_none_iff.1 (hFree hCalls)
    _ = links calls (.member e name) rest := by
        rw [links, past_of_mem List.mem_cons_self, if_pos rfl, named_word]

theorem index {position : Expr} {inner : List Token} (h : Takes e ts)
    (hPosition : Takes position inner) :
    Takes (.index e position) (ts ++ .mark "[" :: (inner ++ [.mark "]"])) := by
  refine ⟨List.append_ne_nil_of_left_ne_nil h.nonempty _, fun calls rest hFree => ?_⟩
  have hInner : chain true (inner ++ .mark "]" :: rest) = some (position, .mark "]" :: rest) := by
    rw [hPosition.takes true _ (by simp), links_end (by decide)]
  calc chain calls ((ts ++ .mark "[" :: (inner ++ [.mark "]"])) ++ rest)
      = links calls e (.mark "[" :: (inner ++ .mark "]" :: rest)) := by
        rw [List.append_assoc, List.cons_append, List.append_assoc]
        exact h.takes _ _ fun hCalls => Option.map_eq_none_iff.1 (hFree hCalls)
    _ = links calls (.index e position) rest := by
        rw [links, past_of_mem (by simp), if_neg (by decide), if_pos rfl, hInner, closed_some,
          consume_some (length_lt_append_cons inner _)]

theorem call {values : List Expr} {inner : List Token} (h : Takes e ts)
    (hInner : ReadsChains values inner) :
    Takes (.call e values) (ts ++ .mark "(" :: (inner ++ [.mark ")"])) := by
  refine ⟨List.append_ne_nil_of_left_ne_nil h.nonempty _, fun calls rest hFree => ?_⟩
  -- the callee of a construction is no call
  obtain rfl : calls = true := by
    by_contra hCalls
    cases hFree (by simpa using hCalls)
  calc chain true ((ts ++ .mark "(" :: (inner ++ [.mark ")"])) ++ rest)
      = links true e (.mark "(" :: (inner ++ .mark ")" :: rest)) := by
        rw [List.append_assoc, List.cons_append, List.append_assoc]
        exact h.takes _ _ (by simp)
    _ = links true (.call e values) rest := by
        rw [links, past_of_mem (by decide), if_neg (by decide), if_neg (by decide), hInner rest,
          consume_some (length_lt_append_cons inner _)]

theorem construct {values : List Expr} {inner : List Token} (h : Takes e ts)
    (hFree : e.constructed? = none) (hInner : ReadsChains values inner) :
    Takes (.construct e values) (.word "new" :: (ts ++ .mark "(" :: (inner ++ [.mark ")"]))) := by
  refine ⟨List.cons_ne_nil _ _, fun calls rest _ => ?_⟩
  have hCallee : chain false (ts ++ .mark "(" :: (inner ++ .mark ")" :: rest)) =
      some (e, .mark "(" :: (inner ++ .mark ")" :: rest)) := by
    rw [h.takes false _ fun _ => hFree, links, past, if_neg (by decide)]
  rw [List.cons_append, List.append_assoc, List.cons_append, List.append_assoc,
    List.singleton_append, chain, past_of_mem (List.mem_singleton_self _), hCallee,
    consume_some (length_lt_append h.nonempty), past_of_mem (List.mem_singleton_self _),
    hInner rest, consume_some (length_lt_append_cons inner _)]

end Takes

namespace ReadsChains

theorem nil : ReadsChains [] [] := by
  intro rest
  rw [List.nil_append, chains, past_of_mem (List.mem_singleton_self _)]

/-- A list that does not end at once is read from its first chain on. -/
theorem chains_of_takes (h : Takes e ts) {t : Token} (ht : t ∈ [Token.mark ")", .mark ","])
    (rest : List Token) : chains (ts ++ t :: rest) =
      past [.mark ","] (t :: rest)
        (past [.mark ")"] (t :: rest) none fun _ behind _ => some ([e], behind))
        fun _ more _ => (chains more).map fun (others, behind) => (e :: others, behind) := by
  have hFirst : chain true (ts ++ t :: rest) = some (e, t :: rest) := by
    rw [h.takes true _ (by simp), links_end]
    rcases List.mem_pair.1 ht with rfl | rfl <;> decide
  obtain ⟨first, others, rfl⟩ := List.exists_cons_of_ne_nil h.nonempty
  -- no chain begins with a closing parenthesis
  have hNot : first ∉ [Token.mark ")"] := by
    intro hMem
    rw [List.mem_singleton.1 hMem, List.cons_append, chain, past, if_neg (by decide)] at hFirst
    cases hFirst
  rw [chains, List.cons_append, past, if_neg hNot, ← List.cons_append, hFirst,
    consume_some (length_lt_append h.nonempty)]

theorem singleton (h : Takes e ts) : ReadsChains [e] ts := by
  intro rest
  rw [chains_of_takes h (by decide), past, if_neg (by decide),
    past_of_mem (List.mem_singleton_self _)]

theorem cons {values : List Expr} {more : List Token} (h : Takes e ts)
    (hMore : ReadsChains values more) : ReadsChains (e :: values) (ts ++ .mark "," :: more) := by
  intro rest
  rw [List.append_assoc, List.cons_append, chains_of_takes h (by decide),
    past_of_mem (List.mem_singleton_self _), hMore rest]
  rfl

end ReadsChains

/-! ## Reading back -/

/-- A settled expression is written as tokens that are read as the expression. -/
theorem exists_takes (h : e.IsChain) (hSettled : e.settled) :
    ∃ ts, Spells e.layout ts ∧ Takes e ts := by
  have hAll : ∀ {es : List Expr},
      (∀ e ∈ es, e.settled → ∃ ts, Spells e.layout ts ∧ Takes e ts) → Expr.allSettled es →
        ∃ ts, Lexes (listed (Expr.layouts es)) ts ∧ ReadsChains es ts :=
    fun hes hSettled => exists_listed .nil .singleton .cons fun e he =>
      hes e he (Expr.allSettled_iff.1 hSettled e he)
  induction h with
  | ident hName hNew => exact ⟨_, .word hName, .ident hNew⟩
  | @member target name h hName ih =>
      obtain ⟨ts, hSpells, hTakes⟩ := ih hSettled
      refine ⟨_, ?_, hTakes.member name⟩
      rw [Expr.layout, h.operand_eq]
      exact hSpells.member hName
  | index h _ ih ihPosition =>
      obtain ⟨hTarget, hPosition⟩ := Bool.and_eq_true_iff.1 hSettled
      obtain ⟨ts, hSpells, hTakes⟩ := ih hTarget
      obtain ⟨us, hInner, hInnerTakes⟩ := ihPosition hPosition
      refine ⟨_, ?_, hTakes.index hInnerTakes⟩
      have hText := hSpells.bracketed (by decide : "[" ∈ _) (by decide : "]" ∈ _) hInner.lexes
      simpa [Expr.layout, h.operand_eq] using hText
  | call h _ ih ihArguments =>
      obtain ⟨hCallee, hArguments⟩ := Bool.and_eq_true_iff.1 hSettled
      obtain ⟨ts, hSpells, hTakes⟩ := ih hCallee
      obtain ⟨us, hLexes, hReads⟩ := hAll ihArguments hArguments
      refine ⟨_, ?_, hTakes.call hReads⟩
      rw [Expr.layout, h.operand_eq]
      exact hSpells.bracketed (by decide) (by decide) hLexes
  | construct h _ ih ihArguments =>
      simp only [Expr.settled, Bool.and_eq_true, Option.isNone_iff_eq_none] at hSettled
      obtain ⟨⟨hFree, hCallee⟩, hArguments⟩ := hSettled
      obtain ⟨ts, hSpells, hTakes⟩ := ih hCallee
      obtain ⟨us, hLexes, hReads⟩ := hAll ihArguments hArguments
      refine ⟨_, ?_, hTakes.construct hFree hReads⟩
      rw [Expr.layout, h.operand_eq, List.append_assoc]
      exact (hSpells.bracketed (by decide) (by decide) hLexes).behind
        (by decide : isIdentifier "new")

/-- **A settled expression is read back as itself.** -/
theorem readChain_of_settled (h : e.IsChain) (hSettled : e.settled) (level : Nat) :
    Expr.readChain (e.text level) = some e := by
  obtain ⟨ts, hSpells, hTakes⟩ := exists_takes h hSettled
  have hTokens : lex (e.text level).toList = some ts := by
    have hText := hSpells.lexes level [] [] (fun _ h => by cases h) lex_nil
    simpa [Expr.text] using hText
  have hTree : chain true ts = some (e, []) := by
    have hReads := hTakes.takes true [] (by simp)
    rwa [List.append_nil, links, past] at hReads
  rw [Expr.readChain, hTokens, Option.bind_some, hTree]

/-- **The text of a chain is that of the regrouped chain, and of no other.** It is read as the
regrouped chain, so two chains have the same text exactly when they are regrouped to the same one.
A chain is what its text is read as exactly if nothing that it constructs is reached through a
call. -/
theorem same_text_iff {e e' : Expr} (h : e.IsChain) (h' : e'.IsChain) (level : Nat) :
    Expr.readChain (e.text level) = some e.regrouped ∧
    (e.text level = e'.text level ↔ e.regrouped = e'.regrouped) ∧
    (e.regrouped = e ↔ e.settled) := by
  have hText : ∀ {e : Expr}, e.IsChain → e.regrouped.text level = e.text level := by
    intro e h
    rw [Expr.text, Expr.text, Expr.layout_regrouped h]
  have hRead : ∀ {e : Expr}, e.IsChain → Expr.readChain (e.text level) = some e.regrouped := by
    intro e h
    rw [← hText h]
    exact readChain_of_settled h.regrouped (Expr.settled_regrouped h) level
  refine ⟨hRead h, ⟨fun hSame => ?_, fun hSame => ?_⟩, Expr.regrouped_eq_iff h⟩
  · exact Option.some.inj (by rw [← hRead h, ← hRead h', hSame])
  · rw [← hText h, ← hText h', hSame]

/-- A new client is made, and its method is called: `new api.Client(host()).open()`. -/
def openedClient : Expr :=
  .call (.member (.construct (.member (.ident "api") "Client") [.call (.ident "host") []]) "open") []

/-- What is found on the result of a call is constructed: `new (api.Client(host()).open)()`. -/
def constructedOpen : Expr :=
  .construct (.member (.call (.member (.ident "api") "Client") [.call (.ident "host") []]) "open") []

theorem same_text_iff_client :
    constructedOpen.IsChain ∧ openedClient.IsChain ∧
    constructedOpen.text 1 = "new api.Client(host()).open()" ∧
    Expr.readChain (constructedOpen.text 1) = some openedClient ∧
    constructedOpen.text 1 = openedClient.text 1 ∧
    constructedOpen.settled = false ∧ openedClient.settled = true := by
  have hArguments : ∀ e ∈ [Expr.call (.ident "host") []], e.IsChain := by
    intro e he
    obtain rfl := List.mem_singleton.1 he
    exact .call (.ident (by decide) (by decide)) fun _ h => absurd h List.not_mem_nil
  have hClass : (Expr.member (.ident "api") "Client").IsChain :=
    .member (.ident (by decide) (by decide)) (by decide)
  have hConstructed : constructedOpen.IsChain :=
    .construct ((hClass.call hArguments).member (by decide)) fun _ h => absurd h List.not_mem_nil
  have hOpened : openedClient.IsChain :=
    .call ((hClass.construct hArguments).member (by decide)) fun _ h => absurd h List.not_mem_nil
  have hRegrouped : constructedOpen.regrouped = openedClient := rfl
  obtain ⟨hRead, hSame, -⟩ := same_text_iff hConstructed hOpened 1
  rw [hRegrouped] at hRead hSame
  exact ⟨hConstructed, hOpened, by decide +kernel, hRead, hSame.2 rfl, rfl, rfl⟩

/-- **Two readings of one text.** The result of a call is constructed, or a new object is called:
`new (f())()` and `(new f())()` are both written `new f()()`. -/
theorem new_call_ambiguous :
    (Expr.construct (.call (.ident "f") []) []).IsChain ∧
    (Expr.call (.construct (.ident "f") []) []).IsChain ∧
    (Expr.construct (.call (.ident "f") []) []).text 0 = "new f()()" ∧
    (Expr.call (.construct (.ident "f") []) []).text 0 = "new f()()" ∧
    Expr.construct (.call (.ident "f") []) [] ≠ .call (.construct (.ident "f") []) [] := by
  have hName : (Expr.ident "f").IsChain := .ident (by decide) (by decide)
  have hNone : ∀ e ∈ ([] : List Expr), e.IsChain := fun _ h => absurd h List.not_mem_nil
  exact ⟨(hName.call hNone).construct hNone, (hName.construct hNone).call hNone,
    by decide +kernel, by decide +kernel, by simp⟩

end Protoscribe.TypeScript

import Protoscribe.Proofs.TypeScript.Relocation

set_option autoImplicit false

/-! # Expressions that begin with a brace

Behind the arrow of a function and at the start of a statement, a brace opens a block. So an object
literal must not come first there. Main statement: `opens_block_iff`, the text behind the arrow
begins with a brace exactly when the body begins with an object literal and is more than that, and
a statement begins with one exactly when its expression begins with an object literal.

What an expression begins with (`Expr.beginsWithObject`) is found along its first operands, as far
as they stand in no parentheses. The layout puts a body in parentheses that is an object literal
itself; it does not look at the first operands of a body, and not at statements at all.
-/

namespace Protoscribe.TypeScript

open Layout (text)

/-- The text begins with a brace, so in the place of a statement it is read as a block. -/
def OpensBlock (content : String) : Prop := content.toList.head? = some '\x7b'

/-- None of the texts begins with a brace. -/
def NoneOpensBlock (texts : List String) : Prop := ∀ content ∈ texts, ¬ OpensBlock content

@[simp] theorem noneOpensBlock_cons (content : String) (rest : List String) :
    NoneOpensBlock (content :: rest) ↔ ¬ OpensBlock content ∧ NoneOpensBlock rest := by
  simp [NoneOpensBlock]

@[simp] theorem noneOpensBlock_append (a b : List String) :
    NoneOpensBlock (a ++ b) ↔ NoneOpensBlock a ∧ NoneOpensBlock b := by
  simp [NoneOpensBlock, or_imp, forall_and]

/-! ## First characters -/

namespace Layout

/-- The first character of the text of a layout. -/
def first? (level : Nat) (layout : Layout) : Option Char := (layout.render level).toList.head?

/-- A text without characters leaves the first character to what follows. -/
@[simp] theorem first?_append (level : Nat) (a b : Layout) :
    first? level (a ++ b) = (a.first? level).or (b.first? level) := by
  rw [first?, render_append, String.toList_append, List.head?_append]
  rfl

@[simp] theorem first?_text (level : Nat) (content : String) :
    (text content).first? level = content.toList.head? := by
  rw [first?, render_text]

@[simp] theorem first?_parenthesized (level : Nat) (layout : Layout) :
    layout.parenthesized.first? level = some '(' := by
  simp [parenthesized]

@[simp] theorem first?_paramsLayout (level : Nat) (params : List Param) :
    (paramsLayout params).first? level = some '(' :=
  first?_parenthesized level _

theorem first?_objectLayout (level : Nat) (multiline : Bool) (properties : List Layout) :
    (objectLayout multiline properties).first? level = some '\x7b' := by
  cases properties with
  | nil => simp [objectLayout]
  | cons first rest =>
      rw [objectLayout]
      split
      · simp [braced]
      · simp

end Layout

open Layout (first?)

theorem first?_operand (level need : Nat) (e : Expr) (layout : Layout) :
    (operand need e layout).first? level =
      if e.precedence < need then some '(' else layout.first? level := by
  unfold operand
  split
  · exact Layout.first?_parenthesized level layout
  · rfl

/-! ## What an expression begins with -/

/-- Whether an operand begins with an object literal where the place asks for `need`: in parentheses
it does not. -/
def operandBegins (need : Nat) (e : Expr) (begins : Bool) : Bool :=
  need ≤ e.precedence && begins

/-- Whether the text of an expression begins with an object literal: it is one, or its first operand
stands in no parentheses and begins with one. -/
def Expr.beginsWithObject : Expr → Bool
  | .object .. => true
  | .member target _ => operandBegins 17 target target.beginsWithObject
  | .index target _ => operandBegins 17 target target.beginsWithObject
  | .call callee _ => operandBegins 17 callee callee.beginsWithObject
  | .binary left operator _ => operandBegins (leftNeed operator) left left.beginsWithObject
  -- only an operator without characters leaves the operand in front
  | .unary operator target => operator = "" && operandBegins 14 target target.beginsWithObject
  | .cast target _ => operandBegins 9 target target.beginsWithObject
  | .conditional condition _ _ => operandBegins 3 condition condition.beginsWithObject
  | _ => false

theorem operand_opens {level : Nat} {e : Expr}
    (h : e.layout.first? level = some '\x7b' ↔ e.beginsWithObject) (need : Nat) :
    (operand need e e.layout).first? level = some '\x7b' ↔
      operandBegins need e e.beginsWithObject := by
  rw [first?_operand, operandBegins]
  by_cases hLoose : e.precedence < need
  · simp [hLoose, Nat.not_le.2 hLoose]
  · simpa [hLoose, Nat.not_lt.1 hLoose] using h

/-- **A text begins with a brace exactly when the expression begins with an object literal.** -/
theorem Expr.first?_layout (level : Nat) : ∀ {e : Expr}, NoneOpensBlock e.raw →
    (e.layout.first? level = some '\x7b' ↔ e.beginsWithObject)
  | .ident name, h => by
      have hName : ¬ OpensBlock name := h name (List.mem_singleton_self _)
      simpa [Expr.layout, Expr.beginsWithObject, OpensBlock] using hName
  | .thisRef, _ => by simp [Expr.layout, Expr.beginsWithObject]
  | .superRef, _ => by simp [Expr.layout, Expr.beginsWithObject]
  | .null, _ => by simp [Expr.layout, Expr.beginsWithObject]
  | .bool value, _ => by cases value <;> simp [Expr.layout, Expr.beginsWithObject]
  | .number digits, h => by
      have hDigits : ¬ OpensBlock digits := h digits (List.mem_singleton_self _)
      simpa [Expr.layout, Expr.beginsWithObject, OpensBlock] using hDigits
  | .string value, _ => by
      have hQuote : (Text.quoted value).toList.head? = some '"' := by
        simp [Text.quoted, Text.Quoted.encode]
      simp [Expr.layout, Expr.beginsWithObject, hQuote]
  | .member target name, h => by
      obtain ⟨hTarget, -⟩ := (noneOpensBlock_append _ _).1 h
      have hBegins := operand_opens (Expr.first?_layout level hTarget) 17
      simpa [Expr.layout, Expr.beginsWithObject, Option.getD_eq_iff] using hBegins
  | .index target position, h => by
      obtain ⟨hTarget, -⟩ := (noneOpensBlock_append _ _).1 h
      have hBegins := operand_opens (Expr.first?_layout level hTarget) 17
      simpa [Expr.layout, Expr.beginsWithObject, Option.getD_eq_iff] using hBegins
  | .call callee arguments, h => by
      obtain ⟨hCallee, -⟩ := (noneOpensBlock_append _ _).1 h
      have hBegins := operand_opens (Expr.first?_layout level hCallee) 17
      simpa [Expr.layout, Expr.beginsWithObject, Option.getD_eq_iff] using hBegins
  | .construct callee arguments, _ => by simp [Expr.layout, Expr.beginsWithObject]
  | .array items, _ => by simp [Expr.layout, Expr.beginsWithObject]
  | .object properties multiline, _ => by
      simp [Expr.layout, Expr.beginsWithObject, Layout.first?_objectLayout]
  | .arrow params result body, _ => by simp [Expr.layout, Expr.beginsWithObject]
  | .arrowBlock params result body, _ => by simp [Expr.layout, Expr.beginsWithObject]
  | .binary left operator right, h => by
      obtain ⟨hLeft, -⟩ := (noneOpensBlock_append _ _).1 h
      have hBegins := operand_opens (Expr.first?_layout level hLeft) (leftNeed operator)
      simpa [Expr.layout, Expr.beginsWithObject, Option.getD_eq_iff] using hBegins
  | .unary operator target, h => by
      obtain ⟨hOperator, hTarget⟩ := (noneOpensBlock_cons _ _).1 h
      have hBegins := operand_opens (Expr.first?_layout level hTarget) 14
      by_cases hEmpty : operator = ""
      · simpa [Expr.layout, Expr.beginsWithObject, hEmpty] using hBegins
      · obtain ⟨c, rest, hText⟩ := List.exists_cons_of_ne_nil (mt String.toList_eq_nil_iff.1 hEmpty)
        simpa [Expr.layout, Expr.beginsWithObject, hEmpty, hText, OpensBlock] using hOperator
  | .typeOf target, _ => by simp [Expr.layout, Expr.beginsWithObject]
  | .cast target type, h => by
      obtain ⟨hTarget, -⟩ := (noneOpensBlock_append _ _).1 h
      have hBegins := operand_opens (Expr.first?_layout level hTarget) 9
      simpa [Expr.layout, Expr.beginsWithObject, Option.getD_eq_iff] using hBegins
  | .conditional condition positive negative, h => by
      obtain ⟨h, -⟩ := (noneOpensBlock_append _ _).1 h
      obtain ⟨hCondition, -⟩ := (noneOpensBlock_append _ _).1 h
      have hBegins := operand_opens (Expr.first?_layout level hCondition) 3
      simpa [Expr.layout, Expr.beginsWithObject, Option.getD_eq_iff] using hBegins

/-! ## Bodies and statements -/

/-- Behind an arrow only another arrow function binds too loosely to stand without parentheses, and
an arrow function does not begin with an object literal. -/
theorem operandBegins_one (e : Expr) :
    operandBegins 1 e e.beginsWithObject = e.beginsWithObject := by
  cases e with
  | binary left operator right =>
      have hAssignment : 1 ≤ operatorPrecedence operator := by
        unfold operatorPrecedence
        split_ifs <;> decide
      simp [operandBegins, Expr.precedence, hAssignment]
  | _ => simp [operandBegins, Expr.precedence, Expr.beginsWithObject]

theorem arrowBody_opens {level : Nat} {body : Expr} (h : NoneOpensBlock body.raw) :
    OpensBlock ((arrowBody body body.layout).render level) ↔
      body.beginsWithObject ∧ body.isObject = false := by
  show (arrowBody body body.layout).first? level = some '\x7b' ↔ _
  rw [arrowBody]
  by_cases hObject : body.isObject
  · simp [hObject]
  · have hBegins := operand_opens (Expr.first?_layout level h) 1
    rw [operandBegins_one] at hBegins
    simpa [hObject] using hBegins

/-- **Which texts are read as blocks.** The body of an arrow function stands behind `=> `; its text
begins with a brace exactly when the body begins with an object literal and is not one itself. The
text of a statement begins with a brace exactly when its expression begins with an object
literal. -/
theorem opens_block_iff {e : Expr} (h : NoneOpensBlock e.raw) (level : Nat) :
    (∀ params result, ∃ body, (Expr.arrow params result e).text level =
        Layout.render level (paramsLayout params ++ annotation result) ++ " => " ++ body ∧
      (OpensBlock body ↔ e.beginsWithObject ∧ e.isObject = false)) ∧
    ∃ line, Line.renderAll level (Stmt.expr e).lines = indentation level ++ line ∧
      (OpensBlock line ↔ e.beginsWithObject) := by
  constructor
  · intro params result
    refine ⟨(arrowBody e e.layout).render level, ?_, arrowBody_opens h⟩
    rw [Expr.text, Expr.layout, Layout.render_append, Layout.render_append, Layout.render_text]
  · refine ⟨Layout.render level (e.layout ++ text ";") ++ "\n", ?_, ?_⟩
    · simp [Stmt.lines, Line.render, Line.flush, String.append_assoc]
    · -- behind the expression stand a semicolon and a line break, and neither is a brace
      have hFirst : (Layout.render level (e.layout ++ text ";") ++ "\n").toList.head? =
          ((e.layout.first? level).or (some ';')).or (some '\n') := by
        simp [first?, Layout.render_append]
      rw [OpensBlock, hFirst, ← Expr.first?_layout level h]
      simp [Option.getD_eq_iff]

/-- At `{ a: 1 }.a() + 2 as any`, where the literal stands first in a member access, a call, a sum
and a cast. -/
theorem opens_block_iff_cast :
    let object : Expr := .object [(.name "a", .number "1")] false
    let e : Expr := .cast (.binary (.call (.member object "a") []) "+" (.number "2")) (.named "any")
    NoneOpensBlock e.raw ∧ e.text 0 = "\x7b a: 1 \x7d.a() + 2 as any" ∧
      e.beginsWithObject = true ∧
      (∀ params result, ∃ body, (Expr.arrow params result e).text 0 =
          Layout.render 0 (paramsLayout params ++ annotation result) ++ " => " ++ body ∧
        (OpensBlock body ↔ e.beginsWithObject ∧ e.isObject = false)) ∧
      ∃ line, Line.renderAll 0 (Stmt.expr e).lines = indentation 0 ++ line ∧
        (OpensBlock line ↔ e.beginsWithObject) := by
  intro object e
  have h : NoneOpensBlock e.raw := by
    have hRaw : e.raw = ["1", "a", "+", "2", "any"] := rfl
    rw [hRaw]
    simp [NoneOpensBlock, OpensBlock]
  exact ⟨h, by decide, by decide, opens_block_iff h 0⟩

/-- The function returning a member of an object literal, and the literal as a statement: behind the
arrow and at the start of the line stands a brace, although no raw text begins with one. -/
theorem leading_object_unguarded :
    let member : Expr := .member (.object [] false) "a"
    NoneOpensBlock member.raw ∧
      (Expr.arrow [] none member).text 0 = "() => " ++ "\x7b\x7d.a" ∧
      OpensBlock "\x7b\x7d.a" ∧
      Line.renderAll 0 (Stmt.expr (.object [] false)).lines = indentation 0 ++ "\x7b\x7d;\n" ∧
      OpensBlock "\x7b\x7d;\n" := by
  intro member
  have h : NoneOpensBlock member.raw := by
    have hRaw : member.raw = ["a"] := rfl
    rw [hRaw]
    simp [NoneOpensBlock, OpensBlock]
  exact ⟨h, by decide, rfl, by decide, rfl⟩

end Protoscribe.TypeScript

import Protoscribe.Proofs.Text.Segments
import Protoscribe.Proofs.TypeScript.Layout
import Protoscribe.Scope

set_option autoImplicit false

/-! # The text of a reference

A module names a type where types stand and where values stand: in a type the dotted path is one
name, in a value it is cut into a chain of members. Main statement: `reference_text`, both are
written as the path itself, whatever the name of the type looks like.

No part of the chain stands in parentheses, because a name and a member bind as tight as the target
of a member has to (`members_foldl`). So the chain is written as the segments of its path with dots
between them (`layout_memberChain`), and this gives the path back.
-/

namespace Protoscribe

open TypeScript
open Layout (text separated)

/-- Whether an expression may be the target of a member without parentheses. -/
def TypeScript.Expr.BindsTight (e : Expr) : Prop := 17 ≤ e.precedence

theorem layout_member {target : Expr} (h : target.BindsTight) (name : String) :
    (Expr.member target name).layout = target.layout ++ text "." ++ text name := by
  rw [Expr.layout, operand, if_neg (Nat.not_lt.2 h)]

/-- **Members of members** are written one behind the other, with a dot in front of each. -/
theorem members_foldl (names : List String) {e : Expr} (h : e.BindsTight) :
    (names.foldl Expr.member e).BindsTight ∧
      (names.foldl Expr.member e).layout = separated "." (e.layout :: names.map text) := by
  induction names generalizing e with
  | nil => exact ⟨h, List.intercalate_singleton.symm⟩
  | cons name names ih =>
      obtain ⟨hTight, hLayout⟩ := ih (e := .member e name) (Nat.le_refl 17)
      refine ⟨hTight, ?_⟩
      rw [List.foldl_cons, hLayout, layout_member h]
      -- the first name is part of the target that the other names stand behind
      cases names <;> simp [separated, List.intercalate_cons_cons]

theorem layout_memberChain (path : String) :
    (memberChain path).BindsTight ∧
      (memberChain path).layout = separated "." ((Text.segments '.' path).map text) := by
  rw [memberChain]
  cases hParts : Text.segments '.' path with
  | nil => exact absurd hParts (Text.segments_ne_nil _ _)
  | cons first others => exact members_foldl others (Nat.le_refl 17)

/-- The text of a chain is its path. -/
theorem text_memberChain (path : String) (level : Nat) : (memberChain path).text level = path := by
  rw [Expr.text, (layout_memberChain path).2, Layout.render_separated_text,
    show "." = String.singleton '.' from rfl, Text.join_segments]

/-- **Both references to a type are written as its path**, as a type and as a value, in every scope,
for every name and at every depth. Neither of them puts anything but dots between the segments. -/
theorem Scope.reference_text (scope : Scope) (typeName : String) (level : Nat) :
    (scope.valueRef typeName).text level = (scope.typeRef typeName).text level ∧
      (scope.typeRef typeName).text level = scope.path typeName ∧
      (scope.valueRef typeName).layout =
        separated "." ((Text.segments '.' (scope.path typeName)).map text) := by
  have hType : (scope.typeRef typeName).text level = scope.path typeName := by
    rw [Scope.typeRef, Ty.named, Ty.text, Ty.layout, Layout.render_text]
  have hValue : (scope.valueRef typeName).text level = scope.path typeName :=
    text_memberChain (scope.path typeName) level
  exact ⟨hValue.trans hType.symm, hType, (layout_memberChain (scope.path typeName)).2⟩

/-- Empty segments and dots at the end stay. -/
example : ((Scope.ofFile .empty .blank).valueRef "..p..T.").text 0 = "p..T." := by
  decide +kernel

end Protoscribe

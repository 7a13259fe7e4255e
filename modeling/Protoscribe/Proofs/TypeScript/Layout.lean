import Protoscribe.Proofs.Text.Lines
import Protoscribe.TypeScript.Expr.Layout

set_option autoImplicit false

/-! # Explicit line breaks

One step deeper, a layout is rendered with four more blanks after each of its line breaks. A line
break inside a stretch of text is not among them, so a layout is `Explicit` when there is none.
Main statements: `render_succ` and `renderAll_succ`, what an explicit layout and explicit lines
look like one step deeper can be read off their text.
-/

namespace Protoscribe.TypeScript

open Layout (text)
open Text (OneLine AllOneLine hang indentLines)

/-! ## Explicit layouts -/

theorem oneLine_indentation : ∀ depth, OneLine (indentation depth)
  | 0 => by simp [OneLine, indentation]
  | depth + 1 => by
      rw [indentation, Text.oneLine_append]
      exact ⟨by simp [OneLine], oneLine_indentation depth⟩

namespace Layout

/-- No stretch of text holds a line break, so all line breaks of the layout are its own. -/
def Explicit (layout : Layout) : Prop := ∀ content, Piece.text content ∈ layout → OneLine content

@[simp] theorem explicit_nil : Explicit [] := by simp [Explicit]

@[simp] theorem explicit_append (a b : Layout) : Explicit (a ++ b) ↔ a.Explicit ∧ b.Explicit := by
  simp [Explicit, or_imp, forall_and]

@[simp] theorem explicit_text (content : String) : (text content).Explicit ↔ OneLine content := by
  simp [Explicit, text]

@[simp] theorem explicit_newline : newline.Explicit := by simp [Explicit, newline]

@[simp] theorem explicit_shift (steps : Nat) (layout : Layout) :
    (shift steps layout).Explicit ↔ layout.Explicit := by
  have hMem : ∀ content, Piece.text content ∈ shift steps layout ↔ Piece.text content ∈ layout := by
    intro content
    induction layout with
    | nil => rfl
    | cons piece rest ih =>
        rw [shift, List.map_cons, List.mem_cons, List.mem_cons]
        refine or_congr ?_ ih
        cases piece with
        | text other => rfl
        | newline depth => simp [Piece.shift]
  exact forall_congr' fun content => by rw [hMem]

@[simp] theorem explicit_nest (layout : Layout) : layout.nest.Explicit ↔ layout.Explicit :=
  explicit_shift 1 layout

@[simp] theorem explicit_parenthesized (layout : Layout) :
    layout.parenthesized.Explicit ↔ layout.Explicit := by
  simp [parenthesized, OneLine]

/-- All of several layouts are explicit. -/
def AllExplicit (layouts : List Layout) : Prop := ∀ layout ∈ layouts, layout.Explicit

@[simp] theorem allExplicit_nil : AllExplicit [] := by simp [AllExplicit]

@[simp] theorem allExplicit_cons (layout : Layout) (rest : List Layout) :
    AllExplicit (layout :: rest) ↔ layout.Explicit ∧ AllExplicit rest := by
  simp [AllExplicit]

@[simp] theorem allExplicit_append (a b : List Layout) :
    AllExplicit (a ++ b) ↔ AllExplicit a ∧ AllExplicit b := by
  simp [AllExplicit, or_imp, forall_and]

theorem explicit_flatMap {α : Type} {items : List α} {f : α → Layout}
    (h : ∀ item ∈ items, (f item).Explicit) : Explicit (items.flatMap f) := by
  intro content hContent
  obtain ⟨item, hItem, hMem⟩ := List.mem_flatMap.1 hContent
  exact h item hItem content hMem

theorem explicit_separated {separator : String} (hSeparator : OneLine separator) :
    ∀ {items : List Layout}, AllExplicit items → (separated separator items).Explicit
  | [], _ => by simp [separated]
  | [item], h => by simpa [separated] using h
  | first :: second :: rest, h => by
      obtain ⟨hFirst, hRest⟩ := (allExplicit_cons _ _).1 h
      have hTail := explicit_separated hSeparator hRest
      rw [separated, List.intercalate_cons_cons, explicit_append, explicit_append, explicit_text]
      exact ⟨⟨hFirst, hSeparator⟩, hTail⟩

theorem explicit_listed {items : List Layout} (h : AllExplicit items) : (listed items).Explicit :=
  explicit_separated (by simp [OneLine]) h

theorem allExplicit_commaEnded :
    ∀ {items : List Layout}, AllExplicit items → AllExplicit (commaEnded items)
  | [], h => h
  | [_], h => h
  | first :: second :: others, h => by
      obtain ⟨hFirst, hRest⟩ := (allExplicit_cons _ _).1 h
      rw [commaEnded, allExplicit_cons, explicit_append, explicit_text]
      exact ⟨⟨hFirst, by simp [OneLine]⟩, allExplicit_commaEnded hRest⟩

theorem explicit_braced {entries : List Layout} (h : AllExplicit entries) :
    (braced entries).Explicit := by
  have hEntries : Explicit (entries.flatMap fun entry => (newline ++ entry).nest) :=
    explicit_flatMap fun entry hEntry => by simpa using h entry hEntry
  simpa [braced, OneLine] using hEntries

/-- **An explicit layout one step deeper** hangs four blanks further to the right. -/
theorem render_succ (level : Nat) {layout : Layout} (h : layout.Explicit) :
    layout.render (level + 1) = hang (layout.render level) := by
  induction layout with
  | nil => rfl
  | cons piece rest ih =>
      have hRest : Explicit rest := fun content hMem => h content (List.mem_cons_of_mem _ hMem)
      rw [render_cons, render_cons, Text.hang_append, ih hRest]
      refine congrArg (· ++ _) ?_
      cases piece with
      | text content => exact (Text.hang_oneLine (h content List.mem_cons_self)).symm
      | newline depth =>
          have hBreak : hang "\n" = "\n" ++ "    " := rfl
          rw [Piece.render, Piece.render, Text.hang_append, Text.hang_oneLine (oneLine_indentation _),
            hBreak, show level + 1 + depth = level + depth + 1 by omega, indentation,
            String.append_assoc]

end Layout

/-! ## Explicit lines -/

namespace Line

/-- The contents of all of the lines are explicit. -/
def AllExplicit (lines : List Line) : Prop := ∀ line ∈ lines, line.content.Explicit

@[simp] theorem allExplicit_nil : AllExplicit [] := by simp [AllExplicit]

@[simp] theorem allExplicit_cons (line : Line) (rest : List Line) :
    AllExplicit (line :: rest) ↔ line.content.Explicit ∧ AllExplicit rest := by
  simp [AllExplicit]

@[simp] theorem allExplicit_append (a b : List Line) :
    AllExplicit (a ++ b) ↔ AllExplicit a ∧ AllExplicit b := by
  simp [AllExplicit, or_imp, forall_and]

@[simp] theorem allExplicit_map_indent (lines : List Line) :
    AllExplicit (lines.map indent) ↔ AllExplicit lines := by
  simp [AllExplicit, indent]

@[simp] theorem content_flush (layout : Layout) : (flush layout).content = layout := rfl

@[simp] theorem allExplicit_enclosed (heading : Layout) (body : List Line) (closing : String) :
    AllExplicit (enclosed heading body closing) ↔
      heading.Explicit ∧ AllExplicit body ∧ OneLine closing := by
  simp [enclosed]

theorem renderAll_append (level : Nat) (a b : List Line) :
    renderAll level (a ++ b) = renderAll level a ++ renderAll level b := by
  induction a with
  | nil => simp
  | cons line rest ih => simp [ih, String.append_assoc]

/-- **Explicit lines one step deeper** are moved four blanks to the right. -/
theorem renderAll_succ (level : Nat) {lines : List Line} (h : AllExplicit lines) :
    renderAll (level + 1) lines = indentLines (renderAll level lines) := by
  induction lines with
  | nil => rfl
  | cons line rest ih =>
      obtain ⟨hLine, hRest⟩ := (allExplicit_cons _ _).1 h
      rw [renderAll_cons, renderAll_cons, ih hRest, render, render, Text.indentLines_line,
        Text.hang_append, Text.hang_oneLine (oneLine_indentation _),
        show level + 1 + line.depth = level + line.depth + 1 by omega, indentation,
        Layout.render_succ _ hLine]
      simp only [String.append_assoc]

end Line

theorem Layout.explicit_block {lines : List Line} (h : Line.AllExplicit lines) :
    (block lines).Explicit := by
  cases lines with
  | nil => simp [block, OneLine]
  | cons line rest =>
      have hLines : Explicit ((line :: rest).flatMap fun line => line.embedded.nest) :=
        explicit_flatMap fun line hLine => by
          rw [explicit_nest, Line.embedded, ← List.singleton_append, explicit_append,
            explicit_shift]
          exact ⟨by simp [Explicit], h line hLine⟩
      simpa [block, OneLine] using hLines

end Protoscribe.TypeScript

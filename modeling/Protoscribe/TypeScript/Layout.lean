set_option autoImplicit false

/-! # Layout with relative indentation

A layout is text in which a line break carries the depth of the line after it, counted from
the line where the layout starts. So a layout does not know how deep it will stand: putting it
one step deeper is `nest`, and `render` turns depths into spaces only at the end.

A `Line` is a layout that begins a line of its own; statements and declarations are lists of
lines.
-/

namespace Protoscribe.TypeScript

/-- A stretch of text, or a line break to a line at the given depth. -/
inductive Piece where
  | text (content : String)
  | newline (depth : Nat)

namespace Piece

/-- The piece `steps` steps deeper. -/
def shift (steps : Nat) : Piece → Piece
  | .text content => .text content
  | .newline depth => .newline (depth + steps)

end Piece

/-- The four spaces of each step of indentation. -/
def indentation : Nat → String
  | 0 => ""
  | depth + 1 => "    " ++ indentation depth

/-- The text of a piece of a layout that starts on a line at depth `level`. -/
def Piece.render (level : Nat) : Piece → String
  | .text content => content
  | .newline depth => "\n" ++ indentation (level + depth)

/-- Text with line breaks of relative depth. -/
abbrev Layout := List Piece

namespace Layout

/-- The layout of a text that is written as it is. -/
def text (content : String) : Layout := [.text content]

/-- The break to a line at the depth where the layout starts. -/
def newline : Layout := [.newline 0]

/-- The layout `steps` steps deeper; its first line stays where it is. -/
def shift (steps : Nat) (layout : Layout) : Layout := layout.map (Piece.shift steps)

/-- The layout one step deeper. -/
def nest (layout : Layout) : Layout := layout.shift 1

/-- The layout in parentheses. -/
def parenthesized (layout : Layout) : Layout := text "(" ++ layout ++ text ")"

/-- The layouts in order, with `separator` between each two. -/
def separated (separator : String) (items : List Layout) : Layout :=
  List.intercalate (text separator) items

/-- The layouts in order, separated by a comma and a blank. -/
def listed (items : List Layout) : Layout := separated ", " items

/-- The entries with a comma after each but the last. -/
def commaEnded : List Layout → List Layout
  | [] => []
  | [last] => [last]
  | first :: second :: others => (first ++ text ",") :: commaEnded (second :: others)

/-- Entries in braces, each on a line of its own one step deeper. -/
def braced (entries : List Layout) : Layout :=
  text "\x7b" ++ entries.flatMap (fun entry => (newline ++ entry).nest) ++ newline ++ text "\x7d"

/-- The text of a layout that starts on a line at depth `level`. -/
def render (level : Nat) (layout : Layout) : String :=
  String.join (layout.map (Piece.render level))

@[simp] theorem render_nil (level : Nat) : render level [] = "" := rfl

@[simp] theorem render_cons (level : Nat) (piece : Piece) (rest : Layout) :
    render level (piece :: rest) = piece.render level ++ render level rest := by
  simp [render, String.join_cons]

@[simp] theorem render_text (level : Nat) (content : String) :
    render level (text content) = content := by
  simp [text, Piece.render]

theorem render_append (level : Nat) (first second : Layout) :
    render level (first ++ second) = render level first ++ render level second := by
  induction first with
  | nil => simp
  | cons piece rest ih => simp [ih, String.append_assoc]

theorem render_separated_text (level : Nat) (separator : String) :
    ∀ names : List String, (separated separator (names.map text)).render level =
      String.intercalate separator names
  | [] => rfl
  | [name] => by simp [separated]
  | name :: next :: others => by
      have ih := render_separated_text level separator (next :: others)
      rw [String.intercalate_cons_cons, ← ih]
      simp only [separated, List.map_cons, List.intercalate_cons_cons, render_append, render_text]

/-- **A layout put deeper reads as the layout that starts deeper.** -/
theorem render_shift (level steps : Nat) (layout : Layout) :
    render level (shift steps layout) = render (level + steps) layout := by
  induction layout with
  | nil => rfl
  | cons piece rest ih =>
      have hp : (piece.shift steps).render level = piece.render (level + steps) := by
        cases piece with
        | text content => rfl
        | newline depth => simp [Piece.shift, Piece.render, Nat.add_assoc, Nat.add_comm steps]
      rw [shift, List.map_cons, render_cons, hp, render_cons]
      exact congrArg _ ih

end Layout

/-- A layout on a line of its own, at a depth relative to its surroundings. -/
structure Line where
  depth : Nat
  content : Layout

namespace Line

/-- A line at the depth of its surroundings. -/
def flush (content : Layout) : Line := ⟨0, content⟩

/-- The line one step deeper. -/
def indent (line : Line) : Line := ⟨line.depth + 1, line.content⟩

/-- The text of a line whose surroundings stand at depth `level`. -/
def render (level : Nat) (line : Line) : String :=
  indentation (level + line.depth) ++ line.content.render (level + line.depth) ++ "\n"

/-- The line as part of a layout: a break to its depth, and its content at that depth. -/
def embedded (line : Line) : Layout :=
  .newline line.depth :: line.content.shift line.depth

/-- The text of lines whose surroundings stand at depth `level`. -/
def renderAll (level : Nat) (lines : List Line) : String :=
  String.join (lines.map (Line.render level))

@[simp] theorem renderAll_nil (level : Nat) : renderAll level [] = "" := rfl

@[simp] theorem renderAll_cons (level : Nat) (line : Line) (rest : List Line) :
    renderAll level (line :: rest) = line.render level ++ renderAll level rest := by
  simp [renderAll, String.join_cons]

/-- **Lines put one step deeper** read as the lines whose surroundings stand one step deeper. -/
theorem renderAll_indent (level : Nat) (lines : List Line) :
    renderAll level (lines.map indent) = renderAll (level + 1) lines := by
  induction lines with
  | nil => rfl
  | cons line rest ih =>
      simp [ih, indent, render, Nat.add_assoc, Nat.add_comm 1]

end Line

namespace Layout

/-- A block in braces: its lines one step deeper, and the closing brace on a line of its own. A
block without lines is written on one line. -/
def block : List Line → Layout
  | [] => text "\x7b \x7d"
  | line :: rest =>
    text "\x7b" ++ (line :: rest).flatMap (fun line => line.embedded.nest) ++ newline
      ++ text "\x7d"

end Layout

end Protoscribe.TypeScript

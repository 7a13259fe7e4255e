import Mathlib.Data.List.Basic
import Protoscribe.Text.Quoted

set_option autoImplicit false

/-! # Moving text to the right

Two ways to move a text four blanks to the right. `indentLines` moves all of its lines; `hang`
leaves the first line where it is, because something already stands in front of it. Main
statement: `indentLines_line`, a line that ends with a line break is moved by four blanks in front
of it and by hanging its content.

A text without line breaks is `OneLine`, so hanging does not change it. Literals and numbers are
always of this kind.
-/

namespace Protoscribe.Text

/-- A text without line breaks. -/
def OneLine (text : String) : Prop := '\n' ∉ text.toList

/-- Texts without line breaks. -/
def AllOneLine (texts : List String) : Prop := ∀ text ∈ texts, OneLine text

@[simp] theorem oneLine_append (a b : String) : OneLine (a ++ b) ↔ OneLine a ∧ OneLine b := by
  simp [OneLine]

@[simp] theorem allOneLine_nil : AllOneLine [] := by simp [AllOneLine]

@[simp] theorem allOneLine_cons (text : String) (rest : List String) :
    AllOneLine (text :: rest) ↔ OneLine text ∧ AllOneLine rest := by
  simp [AllOneLine]

@[simp] theorem allOneLine_append (a b : List String) :
    AllOneLine (a ++ b) ↔ AllOneLine a ∧ AllOneLine b := by
  simp [AllOneLine, or_imp, forall_and]

theorem oneLine_intercalate {separator : String} (hSeparator : OneLine separator) :
    ∀ {texts : List String}, AllOneLine texts → OneLine (String.intercalate separator texts)
  | [], _ => by simp [OneLine]
  | [text], h => by simpa using h
  | first :: second :: rest, h => by
      obtain ⟨hFirst, hRest⟩ := (allOneLine_cons _ _).1 h
      rw [String.intercalate_cons_of_ne_nil (by simp), oneLine_append, oneLine_append]
      exact ⟨⟨hFirst, hSeparator⟩, oneLine_intercalate hSeparator hRest⟩

/-- A number is written in digits and, perhaps, a sign. -/
theorem mem_toString {value : Int} {c : Char} (h : c ∈ (toString value).toList) :
    c.isDigit ∨ c = '-' := by
  have hDigits : ∀ n : Nat, c ∈ Nat.toDigits 10 n → c.isDigit := fun n hMem =>
    Nat.isDigit_of_mem_toDigits (by decide) (by decide) hMem
  cases value with
  | ofNat n => exact Or.inl (hDigits n (by simpa [toString, Int.repr] using h))
  | negSucc n =>
      have hSign : c = '-' ∨ c ∈ Nat.toDigits 10 (n + 1) := by
        simpa [toString, Int.repr] using h
      exact hSign.symm.imp (hDigits _) id

theorem oneLine_toString (value : Int) : OneLine (toString value) := by
  intro h
  rcases mem_toString h with hDigit | hSign
  · exact absurd hDigit (by decide)
  · exact absurd hSign (by decide)

/-- No control character below the blank stands in an escape of a literal. -/
theorem escape_visible (c : Char) : (Quoted.escape c).all (0x20 ≤ ·.toNat) := by
  have hDigit : ∀ n < 16, 0x20 ≤ n.digitChar.toNat := by decide
  unfold Quoted.escape
  split_ifs with _ _ _ _ _ hLow
  -- the escapes of two characters, the escapes with a code, and all other characters
  · decide
  · decide
  · decide
  · decide
  · decide
  · have hHigh := hDigit (c.toNat / 16) (by omega)
    have hLast := hDigit (c.toNat % 16) (by omega)
    simp [hHigh, hLast]
  · simpa using Nat.not_lt.1 hLow

/-- No control character below the blank stands in a literal, whatever it holds. -/
theorem le_toNat_of_mem_quoted {content : String} {d : Char} (h : d ∈ (quoted content).toList) :
    0x20 ≤ d.toNat := by
  rw [quoted, String.toList_ofList, Quoted.encode, List.mem_cons, List.mem_append,
    List.mem_singleton] at h
  rcases h with rfl | hEscape | rfl
  · decide
  · obtain ⟨c, -, hd⟩ := List.mem_flatMap.1 hEscape
    exact of_decide_eq_true (List.all_eq_true.1 (escape_visible c) d hd)
  · decide

/-- **A literal stands on one line**: line breaks of the content are written `\n`. -/
theorem oneLine_quoted (content : String) : OneLine (quoted content) := fun hMem =>
  absurd (le_toNat_of_mem_quoted hMem) (by decide)

/-! ## Four blanks -/

/-- Four blanks at the start of a line, nothing elsewhere. -/
def margin (atStart : Bool) : List Char := if atStart then [' ', ' ', ' ', ' '] else []

/-- Four blanks in front of every character that starts a line. The text begins inside a line or,
if `atStart` holds, with a new one. -/
def indentFrom (atStart : Bool) : List Char → List Char
  | [] => []
  | c :: rest => margin atStart ++ c :: indentFrom (c == '\n') rest

/-- The text with four blanks at the start of every line. -/
def indentLines (text : String) : String := String.ofList (indentFrom true text.toList)

/-- The text with four blanks after every line break. -/
def hang (text : String) : String :=
  String.ofList (text.toList.flatMap fun c => c :: margin (c == '\n'))

theorem hang_append (a b : String) : hang (a ++ b) = hang a ++ hang b := by
  simp [hang]

theorem hang_oneLine {text : String} (h : OneLine text) : hang text = text := by
  have hKeep : ∀ c ∈ text.toList, c :: margin (c == '\n') = [c] := fun c hc => by
    have hNewline : c ≠ '\n' := fun hEq => h (hEq ▸ hc)
    simp [margin, hNewline]
  rw [hang, List.flatMap_congr hKeep, List.flatMap_singleton', String.ofList_toList]

/-- The blanks that a line break leaves behind are the blanks in front of the next line. -/
theorem indentFrom_line (content rest : List Char) (atStart : Bool) :
    indentFrom atStart (content ++ '\n' :: rest) = margin atStart ++
      (content.flatMap (fun c => c :: margin (c == '\n')) ++ '\n' :: indentFrom true rest) := by
  -- the flag says whether the character before ended a line, so it has to vary
  induction content generalizing atStart with
  | nil => rfl
  | cons c content ih =>
      rw [List.cons_append, indentFrom, ih, List.flatMap_cons, List.append_assoc, List.cons_append]

/-- **Moving a line.** Whatever ends with a line break and starts on a line of its own gets four
blanks in front and is hung. -/
theorem indentLines_line (content rest : String) :
    indentLines (content ++ "\n" ++ rest) = "    " ++ hang content ++ "\n" ++ indentLines rest := by
  apply String.toList_inj.1
  simp only [indentLines, hang, String.toList_append, String.toList_ofList]
  rw [List.append_assoc, show "\n".toList = ['\n'] from rfl, List.singleton_append, indentFrom_line]
  simp [margin]

end Protoscribe.Text

import Protoscribe.Proofs.Text.Lines
import Protoscribe.Proofs.TypeScript.Token
import Protoscribe.TypeScript.Decl.Layout

set_option autoImplicit false

/-! # Quoting is exact

A written literal holds a content (`Holds`) if a reader that starts at it reads the content and
stops right behind the literal, whatever follows, and no control character stands in it. Main
statement: `quoting_exact`, a text holds its content wherever it is written between quotes: as an
expression, as a type, behind an import and, unless it is an identifier, as the key of a property.

So no name, default, module path or route can end its literal early.
-/

namespace Protoscribe.TypeScript

open Text (quoted le_toNat_of_mem_quoted toList_quoted)
open Text.Literal (literal literal_encode)

/-! ## Readers -/

/-- The literal at the beginning of a text: its content and what follows it. -/
def literal? : List Char → Option (List Char × List Char)
  | [] => none
  | c :: rest => if c = '"' then literal rest else none

/-- The key of a property at the beginning of a text, an identifier or a literal, and what follows
it. -/
def key? : List Char → Option (List Char × List Char)
  | [] => none
  | c :: rest =>
    if identifierStart c then
      some (c :: rest.takeWhile identifierPart, rest.dropWhile identifierPart)
    else literal? (c :: rest)

/-- The written text is a literal with the given content, and it is one in front of every text. -/
structure Holds (written content : String) : Prop where
  read : ∀ rest, literal? (written.toList ++ rest) = some (content.toList, rest)
  visible : ∀ c ∈ written.toList, 0x20 ≤ c.toNat

theorem holds_quoted (content : String) : Holds (quoted content) content where
  read rest := by
    have hText : (quoted content).toList ++ rest =
        '"' :: (content.toList.flatMap Text.Quoted.escape ++ '"' :: rest) := by
      simp [toList_quoted]
    rw [hText, literal?, if_pos rfl, literal_encode]
  visible _ h := le_toNat_of_mem_quoted h

/-- A key is read up to the colon behind it. -/
theorem key?_text (name : String) (rest : List Char) :
    key? ((PropertyKey.name name).text.toList ++ ':' :: rest) =
      some (name.toList, ':' :: rest) := by
  rw [PropertyKey.text]
  split
  case isTrue hName =>
      have hStops : Stops (':' :: rest) := by
        intro c hc
        cases hc
        decide
      obtain ⟨c, others, hText, hStart, hTake, hDrop⟩ := identifier_span hName hStops
      rw [hText, List.cons_append, key?, if_pos hStart, hTake, hDrop]
  case isFalse =>
      have hRead := (holds_quoted name).read (':' :: rest)
      rw [toList_quoted, List.cons_append] at hRead ⊢
      rw [key?, if_neg (by decide)]
      exact hRead

/-! ## The places of literals -/

/-- **Quoting is exact.** A literal is read back as its content, the reader stops right behind it
whatever follows, and no control character stands in it. This holds of expressions, of types, of
the module path of an import, and every name is read back from its key. -/
theorem quoting_exact (content : String) :
    Holds (quoted content) content ∧
    (∀ level, Holds ((Expr.string content).text level) content) ∧
    (∀ level, Holds ((Ty.literal content).text level) content) ∧
    (∀ identifier, ∃ path, Holds path content ∧
      (Import.mk identifier content).text =
        "import * as " ++ identifier ++ " from " ++ path ++ ";\n") ∧
    ∀ rest, key? ((PropertyKey.name content).text.toList ++ ':' :: rest) =
      some (content.toList, ':' :: rest) := by
  have hHolds := holds_quoted content
  refine ⟨hHolds, fun level => ?_, fun level => ?_, fun identifier => ⟨_, hHolds, rfl⟩,
    key?_text content⟩
  · rw [Expr.text, Expr.layout, Layout.render_text]
    exact hHolds
  · rw [Ty.text, Ty.layout, Layout.render_text]
    exact hHolds

end Protoscribe.TypeScript

import Protoscribe.Proofs.Text.Segments
import Protoscribe.Proofs.TypeScript.Grouping
import Protoscribe.Proofs.TypeScript.Ty.Grammar
import Protoscribe.TypeScript.Ty.Layout

set_option autoImplicit false

/-! # The tokens of a type

Which tokens the text of a type is cut into, piece by piece. Between words there are only punctuators
and blanks (`Separator`), and these are cut the same way whatever stands around them; a line break
and the indentation behind it are blanks. Main statements: `Separator.text`, and `exists_chain` and
`separator_record` for the layouts that are made of several others.
-/

namespace Protoscribe.TypeScript.TypeGrammar

open Layout (text separated newline)
open Text.Literal (literal_encode)

variable {a b c : Layout} {ts us vs : List Token}

/-! ## One token at a time -/

theorem lex_nil : lex [] = some [] := by rw [lex]

theorem lex_blank {c : Char} (h : isBlank c) (rest : List Char) : lex (c :: rest) = lex rest := by
  rw [lex, if_pos h]

theorem lex_sign {c : Char} (h : c ∈ signs) (rest : List Char) :
    lex (c :: rest) = (lex rest).map (.mark (String.singleton c) :: ·) := by
  have hSigns : signs.all fun c => !isBlank c && !identifierStart c && c ≠ '"' := by decide
  have hSign := List.all_eq_true.1 hSigns c h
  simp only [Bool.and_eq_true, Bool.not_eq_true', decide_eq_true_eq] at hSign
  obtain ⟨⟨hBlank, hStart⟩, hQuote⟩ := hSign
  rw [lex, if_neg (by simp [hBlank]), if_neg (by simp [hStart]), if_neg hQuote, if_pos h]

theorem lex_word {name : String} (hName : isIdentifier name) {rest : List Char}
    (hStops : Stops rest) :
    lex (name.toList ++ rest) = (lex rest).map (.word name :: ·) := by
  obtain ⟨c, others, hText, hStart, hTake, hDrop⟩ := identifier_span hName hStops
  rw [hText, List.cons_append, lex, if_neg (by simp [not_blank_of_start hStart]), if_pos hStart,
    hTake, hDrop, ← hText, String.ofList_toList]

theorem lex_quoted (content : String) (rest : List Char) :
    lex ((Text.quoted content).toList ++ rest) = (lex rest).map (.text content :: ·) := by
  have hText : (Text.quoted content).toList ++ rest =
      '"' :: (content.toList.flatMap Text.Quoted.escape ++ '"' :: rest) := by
    simp [Text.toList_quoted]
  rw [hText, lex, if_neg (by decide), if_neg (by decide), if_pos rfl, literal_encode]
  simp

/-- The tokens of characters that are punctuators and blanks only. -/
def marks? : List Char → Option (List Token)
  | [] => some []
  | c :: cs =>
    if isBlank c then marks? cs
    else if c ∈ signs then (marks? cs).map (.mark (String.singleton c) :: ·)
    else none

theorem lex_marks {cs : List Char} (h : marks? cs = some ts) (rest : List Char) :
    lex (cs ++ rest) = (lex rest).map (ts ++ ·) := by
  induction cs generalizing ts with
  | nil =>
      obtain rfl := Option.some.inj h
      simp
  | cons c cs ih =>
      rw [marks?] at h
      split_ifs at h with hBlank hSign
      · rw [List.cons_append, lex_blank hBlank, ih h]
      · obtain ⟨us, hMarks, rfl⟩ := Option.map_eq_some_iff.1 h
        rw [List.cons_append, lex_sign hSign, ih hMarks, Option.map_map]
        rfl

/-- Neither a punctuator nor a blank continues a word. -/
theorem stops_marks {cs : List Char} (h : marks? cs = some ts) (hChars : cs ≠ [])
    (rest : List Char) : Stops (cs ++ rest) := by
  have hNone : ([' ', '\t', '\n', '\r'] ++ signs).all (!identifierPart ·) := by decide
  cases cs with
  | nil => exact absurd rfl hChars
  | cons c cs =>
      have hMem : c ∈ [' ', '\t', '\n', '\r'] ++ signs := by
        rw [marks?] at h
        split_ifs at h with hBlank hSign
        · exact List.mem_append_left _ (of_decide_eq_true hBlank)
        · exact List.mem_append_right _ hSign
      refine stops_cons ?_ _
      simpa using List.all_eq_true.1 hNone c hMem

theorem marks?_indentation : ∀ depth, marks? (indentation depth).toList = some []
  | 0 => rfl
  | depth + 1 => by
      have hBlank : isBlank ' ' := by decide
      simp [indentation, marks?, hBlank, marks?_indentation depth]

/-! ## Layouts -/

/-- The text of a layout is cut into the tokens, if nothing behind it continues its last word. -/
def Writes (layout : Layout) (ts : List Token) : Prop :=
  ∀ level rest, Stops rest →
    lex ((layout.render level).toList ++ rest) = (lex rest).map (ts ++ ·)

/-- The text of a layout is cut into the tokens whatever stands around it. -/
structure Separator (layout : Layout) (ts : List Token) : Prop where
  stops : ∀ level rest, Stops ((layout.render level).toList ++ rest)
  lexes : ∀ level rest, lex ((layout.render level).toList ++ rest) = (lex rest).map (ts ++ ·)

theorem map_append (tokens : Option (List Token)) :
    (tokens.map (us ++ ·)).map (ts ++ ·) = tokens.map ((ts ++ us) ++ ·) := by
  simp [Function.comp_def]

namespace Separator

theorem writes (h : Separator a ts) : Writes a ts := fun level rest _ => h.lexes level rest

theorem of_render (h : ∀ level, (a.render level).toList ≠ [] ∧
    marks? (a.render level).toList = some ts) : Separator a ts where
  stops level rest := stops_marks (h level).2 (h level).1 rest
  lexes level rest := lex_marks (h level).2 rest

/-- **A text of punctuators and blanks.** -/
theorem text {content : String} (h : content.toList ≠ [] ∧ marks? content.toList = some ts) :
    Separator (text content) ts :=
  of_render fun level => by rwa [Layout.render_text]

/-- **A line break and the indentation behind it.** -/
theorem newline : Separator newline [] := by
  refine of_render fun level => ?_
  have hBreak : (Layout.newline.render level).toList = '\n' :: (indentation level).toList := by
    simp [Layout.newline, Piece.render]
  rw [hBreak, marks?, if_pos (by decide)]
  exact ⟨List.cons_ne_nil _ _, marks?_indentation level⟩

theorem append (ha : Separator a ts) (hb : Separator b us) : Separator (a ++ b) (ts ++ us) where
  stops level rest := by
    rw [toList_render_append, List.append_assoc]
    exact ha.stops level _
  lexes level rest := by
    rw [toList_render_append, List.append_assoc, ha.lexes, hb.lexes, map_append]

theorem append_writes (ha : Separator a ts) (hb : Writes b us) : Writes (a ++ b) (ts ++ us) := by
  intro level rest hStops
  rw [toList_render_append, List.append_assoc, ha.lexes, hb level rest hStops, map_append]

/-- Where a layout starts makes no difference. -/
theorem nest (h : Separator a ts) : Separator a.nest ts where
  stops level rest := by
    rw [Layout.nest, Layout.render_shift]
    exact h.stops (level + 1) rest
  lexes level rest := by
    rw [Layout.nest, Layout.render_shift]
    exact h.lexes (level + 1) rest

/-- Something between two separators. -/
theorem around (ha : Separator a ts) (hb : Writes b us) (hc : Separator c vs) :
    Separator (a ++ b ++ c) (ts ++ us ++ vs) where
  stops level rest := by
    rw [toList_render_append, toList_render_append, List.append_assoc, List.append_assoc]
    exact ha.stops level _
  lexes level rest := by
    rw [toList_render_append, toList_render_append, List.append_assoc, List.append_assoc, ha.lexes,
      hb level _ (hc.stops level rest), hc.lexes, map_append, map_append]

end Separator

namespace Writes

theorem append (ha : Writes a ts) (hb : Separator b us) : Writes (a ++ b) (ts ++ us) := by
  intro level rest _
  rw [toList_render_append, List.append_assoc, ha level _ (hb.stops level rest), hb.lexes,
    map_append]

theorem joined (ha : Writes a ts) (hb : Separator b us) (hc : Writes c vs) :
    Writes (a ++ b ++ c) (ts ++ us ++ vs) := by
  intro level rest hStops
  rw [toList_render_append, toList_render_append, List.append_assoc, List.append_assoc,
    ha level _ (hb.stops level _), hb.lexes, hc level rest hStops, map_append, map_append]

theorem word {name : String} (h : isIdentifier name) : Writes (text name) [.word name] := by
  intro level rest hStops
  rw [Layout.render_text, lex_word h hStops]
  rfl

/-- A word and a blank in front of a text. -/
theorem behind {name : String} (hName : isIdentifier name) (h : Writes a ts) :
    Writes (text (name ++ " ") ++ a) (.word name :: ts) := by
  intro level rest hStops
  have hBlank : Stops (' ' :: ((a.render level).toList ++ rest)) := stops_cons (by decide) _
  have hWord := lex_word hName hBlank
  rw [lex_blank (by decide), h level rest hStops, Option.map_map] at hWord
  simpa [toList_render_append, Function.comp_def] using hWord

theorem quoted (content : String) : Writes (text (Text.quoted content)) [.text content] := by
  intro level rest _
  rw [Layout.render_text, lex_quoted]
  rfl

theorem parenthesized (h : Writes a ts) :
    Separator a.parenthesized (.mark "(" :: (ts ++ [.mark ")"])) :=
  Separator.around (.text (by decide +kernel) : Separator (text "(") [.mark "("]) h
    (.text (by decide +kernel) : Separator (text ")") [.mark ")"])

end Writes

/-! ## Lists of layouts -/

theorem layouts_eq_map (types : List Ty) : Ty.layouts types = types.map Ty.layout := by
  induction types with
  | nil => rfl
  | cons type rest ih => rw [Ty.layouts, ih, List.map_cons]

theorem intersectionLayouts_eq_map (types : List Ty) :
    Ty.intersectionLayouts types =
      types.map fun t => if t.isUnion then t.layout.parenthesized else t.layout := by
  induction types with
  | nil => rfl
  | cons type rest ih => rw [Ty.intersectionLayouts, ih, List.map_cons]

/-- Tokens of several parts with a sign between each two of them. -/
inductive Chain {β : Type} (sign : Token) (Part : β → List Token → Prop) :
    List β → List Token → Prop
  | single {part : β} {ts : List Token} (h : Part part ts) : Chain sign Part [part] ts
  | cons {part : β} {parts : List β} {ts us : List Token} (h : Part part ts)
      (hMore : Chain sign Part parts us) : Chain sign Part (part :: parts) (ts ++ sign :: us)

theorem Chain.append {β : Type} {sign : Token} {Part : β → List Token → Prop} {parts others : List β}
    (h : Chain sign Part parts ts) (hOthers : Chain sign Part others us) :
    Chain sign Part (parts ++ others) (ts ++ sign :: us) := by
  induction h with
  | single h => exact .cons h hOthers
  | cons h _ ih =>
      rw [List.append_assoc]
      exact .cons h ih

/-- **Layouts with a separator between them.** If each is written as a chain whose parts carry what
belongs to it, all together are written as one chain. -/
theorem exists_chain {α β γ : Type} {separator : String} {sign : Token}
    {Part : β → List Token → Prop} {layout : α → Layout} {found : β → List γ} {wanted : α → List γ}
    (hSeparator : Separator (text separator) [sign]) :
    ∀ {items : List α}, items ≠ [] →
      (∀ item ∈ items, ∃ ts parts, Writes (layout item) ts ∧ Chain sign Part parts ts ∧
        parts.flatMap found = wanted item) →
      ∃ ts parts, Writes (separated separator (items.map layout)) ts ∧ Chain sign Part parts ts ∧
        parts.flatMap found = items.flatMap wanted
  | [], hItems, _ => absurd rfl hItems
  | [item], _, h => by
      obtain ⟨ts, parts, hWrites, hChain, hFound⟩ := h item (List.mem_singleton_self _)
      refine ⟨ts, parts, ?_, hChain, by rw [hFound, List.flatMap_singleton]⟩
      simpa [separated] using hWrites
  | item :: next :: others, _, h => by
      obtain ⟨hFirst, hRest⟩ := List.forall_mem_cons.1 h
      obtain ⟨ts, parts, hWrites, hChain, hFound⟩ := hFirst
      obtain ⟨us, more, hMoreWrites, hMoreChain, hMoreFound⟩ :=
        exists_chain hSeparator (List.cons_ne_nil _ _) hRest
      refine ⟨_, parts ++ more, ?_, hChain.append hMoreChain, ?_⟩
      · have hText := hWrites.joined hSeparator hMoreWrites
        simpa [separated, List.intercalate_cons_cons] using hText
      · rw [List.flatMap_append, hFound, hMoreFound, ← List.flatMap_cons]

/-! ## Dotted names -/

/-- The token of a name. -/
def IsWord (name : String) (ts : List Token) : Prop := ts = [.word name]

/-- A name of identifiers with dots between them. -/
def IsDotted (name : String) : Prop := ∀ part ∈ Text.segments '.' name, isIdentifier part

instance (name : String) : Decidable (IsDotted name) :=
  inferInstanceAs (Decidable (∀ part ∈ Text.segments '.' name, isIdentifier part))

theorem join_names (name : String) : String.intercalate "." (Text.segments '.' name) = name :=
  Text.join_segments '.' name

theorem IsDotted.exists_chain {name : String} (h : IsDotted name) :
    ∃ ts, Writes (text name) ts ∧ Chain (.mark ".") IsWord (Text.segments '.' name) ts := by
  have hDot : Separator (text ".") [.mark "."] := .text (by decide +kernel)
  have hPart : ∀ part ∈ Text.segments '.' name, ∃ ts parts, Writes (text part) ts ∧
      Chain (.mark ".") IsWord parts ts ∧ parts.flatMap (fun part => [part]) = [part] :=
    fun part hMem => ⟨_, [part], .word (h part hMem), .single rfl, rfl⟩
  obtain ⟨ts, parts, hWrites, hChain, hParts⟩ :=
    TypeGrammar.exists_chain hDot (Text.segments_ne_nil _ _) hPart
  rw [List.flatMap_singleton', List.flatMap_singleton'] at hParts
  subst hParts
  refine ⟨ts, fun level rest hStops => ?_, hChain⟩
  rw [← hWrites level rest hStops, Layout.render_separated_text, join_names, Layout.render_text]

/-! ## Object types -/

/-- The members of an object type, each on a line of its own, and the closing brace. -/
theorem separator_lines {layouts : List Layout} {tokens : List (List Token)}
    (h : List.Forall₂ Writes layouts tokens) :
    Separator ((layouts.map (· ++ text ";")).flatMap (fun entry => (newline ++ entry).nest) ++
        (newline ++ text "\x7d"))
      (tokens.flatMap (· ++ [.mark ";"]) ++ [.mark "\x7d"]) := by
  induction h with
  | nil =>
      exact Separator.newline.append
        (.text (by decide +kernel) : Separator (text "\x7d") [.mark "\x7d"])
  | @cons layout ts layouts tokens h _ ih =>
      have hLine : Separator (newline ++ (layout ++ text ";")).nest (ts ++ [.mark ";"]) := by
        have hEnd : Separator (text ";") [.mark ";"] := .text (by decide +kernel)
        have hAll := (Separator.newline.around h hEnd).nest
        simpa using hAll
      have hAll := hLine.append ih
      simpa using hAll

/-- **The text of an object type.** -/
theorem separator_record {layouts : List Layout} {tokens : List (List Token)}
    (h : List.Forall₂ Writes layouts tokens) :
    Separator (recordLayout layouts)
      (.mark "\x7b" :: (tokens.flatMap (· ++ [.mark ";"]) ++ [.mark "\x7d"])) := by
  cases h with
  | nil => exact .text (by decide +kernel)
  | @cons layout ts layouts tokens h hRest =>
      have hOpen : Separator (text "\x7b") [.mark "\x7b"] := .text (by decide +kernel)
      have hAll := hOpen.append (separator_lines (.cons h hRest))
      simpa only [recordLayout, Layout.braced, List.append_assoc, List.singleton_append] using hAll

end Protoscribe.TypeScript.TypeGrammar

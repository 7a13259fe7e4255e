import Mathlib.Data.List.Basic
import Mathlib.Data.List.TakeWhile
import Protoscribe.Text.Affix
import Protoscribe.Text.Segments

set_option autoImplicit false

/-! # Cutting and joining

Cutting a text undoes joining segments that do not hold the separator (`segments_intercalate`),
and no segment of a text holds it (`not_mem_segment`). A text that is cut only once is cut at the
first separator (`cutFirst_cases`).
-/

namespace Protoscribe.Text

/-- No part of a list that was cut at `x` holds `x`. -/
theorem not_mem_of_mem_splitOn {x : Char} {cs part : List Char} (h : part ∈ cs.splitOn x) :
    x ∉ part := by
  induction cs generalizing part with
  | nil =>
      simp only [List.splitOn_nil, List.mem_singleton] at h
      simp [h]
  | cons c cs ih =>
      rw [List.splitOn_cons_eq_if_modifyHead] at h
      split at h
      · rcases List.mem_cons.1 h with rfl | h
        · simp
        · exact ih h
      · rename_i hc
        rcases hParts : cs.splitOn x with _ | ⟨first, others⟩
        · exact absurd hParts (List.splitOn_ne_nil x cs)
        · rw [hParts, List.modifyHead_cons] at h
          rw [hParts] at ih
          rcases List.mem_cons.1 h with rfl | h
          · have hFirst := ih List.mem_cons_self
            simp only [List.mem_cons, not_or]
            exact ⟨fun hx => hc (by simp [hx]), hFirst⟩
          · exact ih (List.mem_cons_of_mem _ h)

theorem not_mem_segment {sep : Char} {text segment : String} (h : segment ∈ segments sep text) :
    sep ∉ segment.toList := by
  obtain ⟨part, hPart, rfl⟩ := List.mem_map.1 h
  rw [String.toList_ofList]
  exact not_mem_of_mem_splitOn hPart

/-- **Cutting undoes joining.** -/
theorem segments_intercalate {sep : Char} {parts : List String}
    (hSep : ∀ part ∈ parts, sep ∉ part.toList) (hParts : parts ≠ []) :
    segments sep (String.intercalate (String.singleton sep) parts) = parts := by
  apply (List.map_inj_right fun _ _ => String.toList_inj.1).1
  rw [map_toList_segments, String.toList_intercalate, String.toList_singleton]
  refine List.splitOn_intercalate sep ?_ (by simpa using hParts)
  intro l hl
  obtain ⟨part, hPart, rfl⟩ := List.mem_map.1 hl
  exact hSep part hPart

/-- A text is the join of its segments. -/
theorem join_segments (sep : Char) (text : String) :
    String.intercalate (String.singleton sep) (segments sep text) = text := by
  apply String.toList_inj.1
  rw [String.toList_intercalate, String.toList_singleton, intercalate_segments]

/-- Cutting around one separator. -/
theorem segments_append {sep : Char} (a b : String) :
    segments sep (a ++ (String.singleton sep ++ b)) = segments sep a ++ segments sep b := by
  simp only [segments, String.toList_append, String.toList_singleton, List.cons_append,
    List.nil_append, List.splitOn_append_cons_self, List.map_append]

theorem segments_eq_singleton {sep : Char} {text : String} (h : sep ∉ text.toList) :
    segments sep text = [text] := by
  rw [segments, List.splitOn_eq_singleton h, List.map_singleton, String.ofList_toList]

/-- An ending without separators only changes the last segment. -/
theorem dropLast_segments_append {sep : Char} (text ending : String)
    (h : sep ∉ ending.toList) :
    (segments sep (text ++ ending)).dropLast = (segments sep text).dropLast := by
  have key : ∀ cs : List Char, ((cs ++ ending.toList).splitOn sep).dropLast =
      (cs.splitOn sep).dropLast := by
    intro cs
    induction cs with
    | nil => simp [List.splitOn_eq_singleton h]
    | cons c cs ih =>
        rw [List.cons_append, List.splitOn_cons_eq_if_modifyHead,
          List.splitOn_cons_eq_if_modifyHead]
        have hLeft := List.splitOn_ne_nil sep (cs ++ ending.toList)
        have hRight := List.splitOn_ne_nil sep cs
        split
        · rw [List.dropLast_cons_of_ne_nil hLeft, List.dropLast_cons_of_ne_nil hRight, ih]
        · have hModify : ∀ parts : List (List Char),
              (parts.modifyHead (c :: ·)).dropLast = parts.dropLast.modifyHead (c :: ·) := by
            intro parts
            rcases parts with _ | ⟨first, _ | ⟨second, others⟩⟩ <;> rfl
          rw [hModify, hModify, ih]
  simp only [segments, String.toList_append, ← List.map_dropLast, key]

/-! ## Cutting once -/

theorem cutFirst_none {sep : Char} {text : String} (h : sep ∉ text.toList) :
    cutFirst sep text = (text, none) := by
  have hKeep : text.toList.takeWhile (· != sep) = text.toList :=
    List.takeWhile_eq_self_iff.2 fun c hc => bne_iff_ne.2 fun hEq => h (hEq ▸ hc)
  simp only [cutFirst, hKeep, List.drop_length]

theorem cutFirst_some {sep : Char} {before : String} (h : sep ∉ before.toList) (after : String) :
    cutFirst sep (before ++ (String.singleton sep ++ after)) = (before, some after) := by
  have hAll : ∀ c ∈ before.toList, (c != sep) = true := fun c hc =>
    bne_iff_ne.2 fun hEq => h (hEq ▸ hc)
  have hText : (before ++ (String.singleton sep ++ after)).toList =
      before.toList ++ sep :: after.toList := by simp
  have hTake : (before.toList ++ sep :: after.toList).takeWhile (· != sep) = before.toList := by
    rw [List.takeWhile_append_of_pos hAll, List.takeWhile_cons_of_neg (by simp), List.append_nil]
  simp only [cutFirst, hText, hTake, List.drop_left, String.ofList_toList]

/-- A text is cut at the first separator, unless there is none. -/
theorem cutFirst_cases (sep : Char) (text : String) :
    (sep ∉ text.toList ∧ cutFirst sep text = (text, none)) ∨
      ∃ before after, sep ∉ before.toList ∧ text = before ++ (String.singleton sep ++ after) ∧
        cutFirst sep text = (before, some after) := by
  by_cases h : sep ∈ text.toList
  · obtain ⟨before, after, hText, hBefore⟩ := List.eq_append_cons_of_mem h
    have hFirst : sep ∉ (String.ofList before).toList := by rwa [String.toList_ofList]
    obtain rfl : text =
        String.ofList before ++ (String.singleton sep ++ String.ofList after) := by
      apply String.toList_inj.1
      rw [hText]
      simp
    exact Or.inr ⟨_, _, hFirst, rfl, cutFirst_some hFirst _⟩
  · exact Or.inl ⟨h, cutFirst_none h⟩

/-! ## Taking parts off -/

theorem isPrefixOf?_eq_some {start cs rest : List Char} :
    start.isPrefixOf? cs = some rest ↔ cs = start ++ rest := by
  induction start generalizing cs with
  | nil => simp [List.isPrefixOf?]
  | cons c start ih =>
      cases cs with
      | nil => simp [List.isPrefixOf?]
      | cons d cs =>
          by_cases h : c = d
          · simp [List.isPrefixOf?, h, ih]
          · simp [List.isPrefixOf?, h, Ne.symm h]

theorem afterStart?_eq_some {start text rest : String} :
    afterStart? start text = some rest ↔ text = start ++ rest := by
  rw [afterStart?, Option.map_eq_some_iff]
  constructor
  · rintro ⟨cs, hcs, rfl⟩
    apply String.toList_inj.1
    rw [isPrefixOf?_eq_some.1 hcs, String.toList_append, String.toList_ofList]
  · rintro rfl
    exact ⟨rest.toList, isPrefixOf?_eq_some.2 (String.toList_append ..), String.ofList_toList⟩

theorem beforeEnding?_eq_some {ending text start : String} :
    beforeEnding? ending text = some start ↔ text = start ++ ending := by
  rw [beforeEnding?, List.isSuffixOf?, Option.map_map, Option.map_eq_some_iff]
  constructor
  · rintro ⟨cs, hcs, rfl⟩
    apply String.toList_inj.1
    rw [String.toList_append, Function.comp, String.toList_ofList, ← List.reverse_inj,
      isPrefixOf?_eq_some.1 hcs, List.reverse_append, List.reverse_reverse]
  · rintro rfl
    refine ⟨start.toList.reverse, isPrefixOf?_eq_some.2 ?_, ?_⟩
    · rw [String.toList_append, List.reverse_append]
    · rw [Function.comp, List.reverse_reverse, String.ofList_toList]

end Protoscribe.Text

set_option autoImplicit false

/-! # Segments of a text

A text is cut at every occurrence of one separator character. `n` separators give `n + 1`
segments, so there is always a first and a last one (`segments_ne_nil`), and a separator at
either end or next to another one gives an empty segment. Putting the separator between the
segments gives the text back (`intercalate_segments`).
-/

namespace Protoscribe.Text

/-- The segments of a text between occurrences of `sep`. -/
def segments (sep : Char) (text : String) : List String :=
  (text.toList.splitOn sep).map String.ofList

theorem segments_ne_nil (sep : Char) (text : String) : segments sep text ≠ [] := by
  simp [segments]

theorem map_toList_segments (sep : Char) (text : String) :
    (segments sep text).map String.toList = text.toList.splitOn sep := by
  rw [segments, List.map_map, show String.toList ∘ String.ofList = id from
    funext fun cs => String.toList_ofList, List.map_id]

/-- **Nothing is lost by cutting a text.** -/
theorem intercalate_segments (sep : Char) (text : String) :
    [sep].intercalate ((segments sep text).map String.toList) = text.toList := by
  rw [map_toList_segments, List.intercalate_splitOn]

/-- The part of a text before the first `sep`, and the part after it when there is one. -/
def cutFirst (sep : Char) (text : String) : String × Option String :=
  let before := text.toList.takeWhile (· != sep)
  match text.toList.drop before.length with
  | [] => (text, none)
  | _ :: after => (String.ofList before, some (String.ofList after))

end Protoscribe.Text

set_option autoImplicit false

/-! # Leading and trailing parts of a text

Taking a given text off the front or the back of another one. Nothing is taken when the text
does not begin or end that way.
-/

namespace Protoscribe.Text

/-- The rest of `text` after `start`, or nothing when `text` does not begin with `start`. -/
def afterStart? (start text : String) : Option String :=
  (start.toList.isPrefixOf? text.toList).map String.ofList

/-- The part of `text` before `ending`, or nothing when `text` does not end with `ending`. -/
def beforeEnding? (ending text : String) : Option String :=
  (ending.toList.isSuffixOf? text.toList).map String.ofList

/-- `text` without the occurrences of `c` at its start. -/
def dropLeading (c : Char) (text : String) : String :=
  String.ofList (text.toList.dropWhile (· == c))

end Protoscribe.Text

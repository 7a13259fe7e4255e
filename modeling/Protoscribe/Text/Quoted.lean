set_option autoImplicit false

/-! # Double-quoted literals

A text is written between double quotes. The quote, the backslash and the control characters
below U+0020 are written as escapes; every other character stands for itself.
-/

namespace Protoscribe.Text

namespace Quoted

/-- The written form of one character inside the quotes. -/
def escape (c : Char) : List Char :=
  if c = '"' then ['\\', '"']
  else if c = '\\' then ['\\', '\\']
  else if c = '\n' then ['\\', 'n']
  else if c = '\r' then ['\\', 'r']
  else if c = '\t' then ['\\', 't']
  else if c.toNat < 0x20 then
    ['\\', 'u', '0', '0', (c.toNat / 16).digitChar, (c.toNat % 16).digitChar]
  else [c]

/-- The written form of a list of characters, quotes included. -/
def encode (cs : List Char) : List Char :=
  '"' :: (cs.flatMap escape ++ ['"'])

end Quoted

/-- A text as a double-quoted literal. -/
def quoted (text : String) : String :=
  String.ofList (Quoted.encode text.toList)

end Protoscribe.Text

import Mathlib.Data.List.Basic
import Protoscribe.Text.Quoted

set_option autoImplicit false

/-! # Reading double-quoted literals

The reader of string literals between double quotes, as ECMAScript has them since 2019: a line feed
or a carriage return ends nothing but the reading, line and paragraph separators stand for
themselves, and a backslash begins an escape or a line continuation. Old octal escapes are not
read, as in a module they are errors. Main statement: `literal_encode`, what is written for a text
is read back as this text, and the reader stops right behind it.

A text is a list of characters, so an escape for one half of a surrogate pair is not read.
-/

namespace Protoscribe.Text

namespace Literal

/-! ## Escapes -/

/-- The value of a hexadecimal digit. -/
def digit? (c : Char) : Option Nat :=
  if c.isDigit then some (c.toNat - '0'.toNat)
  else if 'a' ≤ c ∧ c ≤ 'f' then some (c.toNat - 'a'.toNat + 10)
  else if 'A' ≤ c ∧ c ≤ 'F' then some (c.toNat - 'A'.toNat + 10)
  else none

/-- The number written in hexadecimal digits. -/
def number? (digits : List Char) : Option Nat :=
  digits.foldlM (fun value c => (digit? c).map (16 * value + ·)) 0

/-- The character with the code that is written in hexadecimal digits. -/
def character? (digits : List Char) : Option Char :=
  (number? digits).bind fun code => if code.isValidChar then some (Char.ofNat code) else none

/-- The character that an escape of one character stands for. -/
def single (c : Char) : Char :=
  if c = 'b' then '\x08'
  else if c = 't' then '\t'
  else if c = 'n' then '\n'
  else if c = 'v' then '\x0b'
  else if c = 'f' then '\x0c'
  else if c = 'r' then '\r'
  else c

/-- An escape of a fixed number of digits, with what follows it. -/
def fixed? (count : Nat) (cs : List Char) : Option (List Char × List Char) :=
  if count ≤ cs.length then (character? (cs.take count)).map ([·], cs.drop count) else none

/-- An escape with its digits in braces, read behind the opening brace, with what follows it. -/
def braced? (cs : List Char) : Option (List Char × List Char) :=
  let digits := cs.takeWhile (· ≠ '\x7d')
  if digits = [] ∨ digits.length = cs.length then none
  else (character? digits).map ([·], cs.drop (digits.length + 1))

/-- An escape, read behind its backslash: the characters it stands for and what follows it. A line
continuation stands for no character. -/
def escape? : List Char → Option (List Char × List Char)
  | [] => none
  | c :: rest =>
    if c = 'x' then fixed? 2 rest
    else if c = 'u' then
      if rest.head? = some '\x7b' then braced? rest.tail else fixed? 4 rest
    else if c = '\r' ∧ rest.head? = some '\n' then some ([], rest.tail)
    else if c ∈ ['\n', '\r', '\u2028', '\u2029'] then some ([], rest)
    else if c = '0' ∧ rest.head?.all (!·.isDigit) then some (['\x00'], rest)
    else if c.isDigit then none
    else some ([single c], rest)

theorem length_fixed? {count : Nat} {cs content rest : List Char}
    (h : fixed? count cs = some (content, rest)) : rest.length ≤ cs.length := by
  unfold fixed? at h
  split at h
  · obtain ⟨c, -, hc⟩ := Option.map_eq_some_iff.1 h
    obtain ⟨-, rfl⟩ := Prod.mk.inj hc
    rw [List.length_drop]
    omega
  · cases h

theorem length_braced? {cs content rest : List Char}
    (h : braced? cs = some (content, rest)) : rest.length ≤ cs.length := by
  simp only [braced?] at h
  split at h
  · cases h
  · obtain ⟨c, -, hc⟩ := Option.map_eq_some_iff.1 h
    obtain ⟨-, rfl⟩ := Prod.mk.inj hc
    rw [List.length_drop]
    omega

/-- An escape is at least one character long. -/
theorem length_escape? {cs content rest : List Char} (h : escape? cs = some (content, rest)) :
    rest.length < cs.length := by
  cases cs with
  | nil => cases h
  | cons c cs =>
      have hTail : cs.tail.length ≤ cs.length := by rw [List.length_tail]; omega
      rw [List.length_cons, Nat.lt_succ_iff]
      rw [escape?] at h
      split_ifs at h
      · exact length_fixed? h
      · exact Nat.le_trans (length_braced? h) hTail
      · exact length_fixed? h
      · cases h
        exact hTail
      · cases h
        exact Nat.le_refl _
      · cases h
        exact Nat.le_refl _
      · cases h
        exact Nat.le_refl _

/-! ## Literals -/

/-- A literal, read behind its opening quote: its content and what follows the closing quote. -/
def literal (cs : List Char) : Option (List Char × List Char) :=
  match cs with
  | [] => none
  | c :: rest =>
    if c = '"' then some ([], rest)
    else if c = '\\' then
      match _h : escape? rest with
      | none => none
      | some (content, behind) => (literal behind).map fun (more, after) => (content ++ more, after)
    else if c = '\n' ∨ c = '\r' then none
    else (literal rest).map fun (more, after) => (c :: more, after)
termination_by cs.length
decreasing_by
  · have := length_escape? _h
    simp only [List.length_cons]
    omega
  · simp

/-- The closing quote is part of the literal. -/
theorem length_literal {cs content rest : List Char} (h : literal cs = some (content, rest)) :
    rest.length < cs.length := by
  fun_induction literal cs generalizing content rest with
  | case1 => cases h
  | case2 =>
      cases h
      rw [List.length_cons]
      omega
  | case3 => cases h
  | case4 escaped content' behind hEscape _ ih =>
      obtain ⟨⟨more, after⟩, hMore, hPair⟩ := Option.map_eq_some_iff.1 h
      obtain ⟨-, rfl⟩ := Prod.mk.inj hPair
      have hBehind := length_escape? hEscape
      have hAfter := ih hMore
      rw [List.length_cons]
      omega
  | case5 => cases h
  | case6 c behind _ _ _ ih =>
      obtain ⟨⟨more, after⟩, hMore, hPair⟩ := Option.map_eq_some_iff.1 h
      obtain ⟨-, rfl⟩ := Prod.mk.inj hPair
      have hAfter := ih hMore
      rw [List.length_cons]
      omega

theorem literal_quote (rest : List Char) : literal ('"' :: rest) = some ([], rest) := by
  rw [literal, if_pos rfl]

theorem literal_escape {escaped content behind : List Char}
    (h : escape? escaped = some (content, behind)) :
    literal ('\\' :: escaped) =
      (literal behind).map fun (more, after) => (content ++ more, after) := by
  rw [literal, if_neg (by decide), if_pos rfl, h]

/-- **A character is read back from what is written for it.** -/
theorem literal_append_escape (c : Char) (rest : List Char) :
    literal (Quoted.escape c ++ rest) =
      (literal rest).map fun (more, after) => (c :: more, after) := by
  have hControl : ∀ n < 32, character? ['0', '0', (n / 16).digitChar, (n % 16).digitChar] =
      some (Char.ofNat n) := by decide
  have hShort : ∀ a b, escape? (a :: rest) = some ([b], rest) →
      literal (['\\', a] ++ rest) = (literal rest).map fun (more, after) => (b :: more, after) :=
    fun _ _ h => literal_escape h
  unfold Quoted.escape
  split_ifs with hQuote hBackslash hFeed hReturn hTab hLow
  -- the escapes of two characters, the escapes with a code, and all other characters
  · exact hQuote ▸ hShort '"' '"' rfl
  · exact hBackslash ▸ hShort '\\' '\\' rfl
  · exact hFeed ▸ hShort 'n' '\n' rfl
  · exact hReturn ▸ hShort 'r' '\r' rfl
  · exact hTab ▸ hShort 't' '\t' rfl
  · have hCode : escape? (['u', '0', '0', (c.toNat / 16).digitChar, (c.toNat % 16).digitChar] ++
        rest) = some ([c], rest) := by
      show (character? ['0', '0', (c.toNat / 16).digitChar, (c.toNat % 16).digitChar]).map
        (fun c => ([c], rest)) = _
      rw [hControl _ hLow, Char.ofNat_toNat]
      rfl
    exact literal_escape hCode
  · rw [List.singleton_append, literal, if_neg hQuote, if_neg hBackslash,
      if_neg (by simp [hFeed, hReturn])]

/-- **A text is read back from what is written for it**, whatever follows the closing quote. -/
theorem literal_encode (content rest : List Char) :
    literal (content.flatMap Quoted.escape ++ '"' :: rest) = some (content, rest) := by
  induction content with
  | nil => exact literal_quote rest
  | cons c content ih =>
      rw [List.flatMap_cons, List.append_assoc, literal_append_escape, ih]
      rfl

end Literal

/-- A literal begins and ends with a quote. -/
theorem toList_quoted (content : String) : (quoted content).toList =
    '"' :: (content.toList.flatMap Quoted.escape ++ ['"']) := by
  rw [quoted, Quoted.encode, String.toList_ofList]

end Protoscribe.Text

import Mathlib.Data.List.Infix
import Protoscribe.Proofs.Checked
import Protoscribe.Proofs.Text.Lines
import Protoscribe.SourceFile
import Protoscribe.TypeScript.Decl.Layout

set_option autoImplicit false

/-! # The leading comment of a module

The entries of the header are written into a comment as they are, one behind the other, and the
comment ends where the first `*/` stands. `SourceFile.HeaderCloses` says that this is where it is
meant to end: on the last line of the comment, right in front of the imports, with one line for each
entry before it. Main statement: `module_header_closes_iff`, the header of a module closes exactly
when neither the name of its file nor the suffix of the compiler version holds a `*/` or a line
break.

Every line of the comment starts with an asterisk and a blank and ends with a line break, so a `*/`
never comes about across entries or between an entry and what is written around it
(`closes_entries`).
-/

namespace Protoscribe

open TypeScript Checked

/-! ## The end of a comment -/

/-- The characters hold the end of a comment. -/
def Closes (cs : List Char) : Prop := ['*', '/'] <:+: cs

instance (cs : List Char) : Decidable (Closes cs) := inferInstanceAs (Decidable (_ <:+: cs))

/-- The first end of a comment in `text` stands between `before` and `behind`. -/
structure EndsFirst (text before behind : List Char) : Prop where
  split : text = before ++ '*' :: '/' :: behind
  first : ¬ Closes (before ++ ['*'])

theorem closes_cons {c : Char} {cs : List Char} :
    Closes (c :: cs) ↔ (c = '*' ∧ cs.head? = some '/') ∨ Closes cs := by
  have hHere : ['*', '/'] <+: c :: cs ↔ c = '*' ∧ cs.head? = some '/' := by
    cases cs <;> simp [List.cons_prefix_cons, eq_comm]
  rw [Closes, List.infix_cons_iff, hHere, Closes]

theorem not_closes_nil : ¬ Closes [] := by decide

/-- Nothing ends without an asterisk. -/
theorem closes_append_of_not_mem {a b : List Char} (h : '*' ∉ a) :
    Closes (a ++ b) ↔ Closes b := by
  induction a with
  | nil => rfl
  | cons c a ih =>
      rw [List.mem_cons, not_or] at h
      rw [List.cons_append, closes_cons, ih h.2]
      simp [Ne.symm h.1]

/-- Another character keeps the two sides apart. -/
theorem closes_append_cons {a b : List Char} {c : Char} (hStar : c ≠ '*') (hSlash : c ≠ '/') :
    Closes (a ++ c :: b) ↔ Closes a ∨ Closes b := by
  induction a with
  | nil => simp [closes_cons, hStar, not_closes_nil]
  | cons d a ih =>
      have hHead : (a ++ c :: b).head? = some '/' ↔ a.head? = some '/' := by
        cases a <;> simp [hSlash]
      rw [List.cons_append, closes_cons, closes_cons, ih, hHead, or_assoc]

/-! ## Entries -/

/-- The text neither ends a comment nor a line. -/
structure Harmless (text : String) : Prop where
  noEnd : ¬ Closes text.toList
  oneLine : Text.OneLine text

theorem harmless_append {start text : String} (hStar : '*' ∉ start.toList)
    (hLine : Text.OneLine start) : Harmless (start ++ text) ↔ Harmless text := by
  have hCloses : Closes (start ++ text).toList ↔ Closes text.toList := by
    rw [String.toList_append, closes_append_of_not_mem hStar]
  constructor
  · intro h
    exact ⟨mt hCloses.2 h.noEnd, ((Text.oneLine_append _ _).1 h.oneLine).2⟩
  · intro h
    exact ⟨mt hCloses.1 h.noEnd, (Text.oneLine_append _ _).2 ⟨hLine, h.oneLine⟩⟩

/-- The line of an entry, without the break that ends it. -/
def commentRow (entry : String) : String := if entry = "" then " *" else " * " ++ entry

theorem commentLine_eq (entry : String) : commentLine entry = commentRow entry ++ "\n" := by
  rw [commentLine, commentRow]
  split <;> rfl

theorem map_commentLine (entries : List String) :
    entries.map commentLine = (entries.map commentRow).map (· ++ "\n") := by
  rw [List.map_map]
  exact List.map_congr_left fun entry _ => commentLine_eq entry

theorem closes_commentRow (entry : String) :
    Closes (commentRow entry).toList ↔ Closes entry.toList := by
  rw [commentRow]
  split
  case isTrue h =>
      rw [h]
      decide
  case isFalse =>
      have hRow : (" * " ++ entry).toList = ' ' :: '*' :: ' ' :: entry.toList := by simp
      simp [hRow, closes_cons]

theorem oneLine_commentRow (entry : String) :
    Text.OneLine (commentRow entry) ↔ Text.OneLine entry := by
  rw [commentRow]
  split
  case isTrue h => simp [h, Text.OneLine]
  case isFalse =>
      rw [Text.oneLine_append]
      exact and_iff_right (by simp [Text.OneLine])

/-- **The lines of a comment end it only where an entry does.** -/
theorem closes_entries (entries : List String) (rest : List Char) :
    Closes ((String.join (entries.map commentLine)).toList ++ rest) ↔
      (∃ entry ∈ entries, Closes entry.toList) ∨ Closes rest := by
  induction entries with
  | nil => simp
  | cons entry entries ih =>
      have hText : (String.join ((entry :: entries).map commentLine)).toList ++ rest =
          (commentRow entry).toList ++
            '\n' :: ((String.join (entries.map commentLine)).toList ++ rest) := by
        simp [String.join_cons, commentLine_eq]
      rw [hText, closes_append_cons (by decide) (by decide), closes_commentRow, ih, ← or_assoc]
      simp

/-- A comment with the given lines, up to the asterisk and the slash that end it. -/
def unended (lines : List String) : String := "/**\n" ++ String.join (lines.map (· ++ "\n")) ++ " "

/-- In front of its end a comment holds another one only where an entry does. -/
theorem closes_unended (entries : List String) :
    Closes ((unended (entries.map commentRow)).toList ++ ['*']) ↔
      ∃ entry ∈ entries, Closes entry.toList := by
  have hText : (unended (entries.map commentRow)).toList ++ ['*'] = ['/', '*', '*'] ++ '\n' ::
      ((String.join (entries.map commentLine)).toList ++ [' ', '*']) := by
    rw [unended, ← map_commentLine]
    simp
  have hStart : ¬ Closes ['/', '*', '*'] := by decide
  have hEnd : ¬ Closes [' ', '*'] := by decide
  rw [hText, closes_append_cons (by decide) (by decide), closes_entries]
  simp [hStart, hEnd]

/-- Lines with a break behind each have as many breaks as there are lines, and those in them. -/
theorem count_lines (lines : List String) :
    (String.join (lines.map (· ++ "\n"))).toList.count '\n' =
      lines.length + (String.join lines).toList.count '\n' := by
  induction lines with
  | nil => rfl
  | cons line lines ih =>
      have hBreak : "\n".toList.count '\n' = 1 := rfl
      rw [List.map_cons, String.join_cons, String.join_cons, String.toList_append,
        String.toList_append, String.toList_append, List.count_append, List.count_append,
        List.count_append, ih, hBreak, List.length_cons]
      omega

theorem count_breaks_eq_zero {lines : List String} :
    (String.join lines).toList.count '\n' = 0 ↔ Text.AllOneLine lines := by
  rw [List.count_eq_zero, ← Text.OneLine]
  induction lines with
  | nil => simp [Text.OneLine]
  | cons line lines ih => simp [ih]

/-! ## Source files -/

namespace TypeScript.SourceFile

/-- What a source file has behind its leading comment. -/
def code (source : SourceFile) : String := { source with header := [] }.text

/-- The header is one comment with one line for each entry: the text begins with `/**` and as many
lines, then the first `*/` of the text is on a line of its own, and behind it comes everything
else. -/
def HeaderCloses (source : SourceFile) : Prop :=
  ∃ lines : List String, lines.length = source.header.length ∧ Text.AllOneLine lines ∧
    EndsFirst source.text.toList (unended lines).toList ('\n' :: source.code.toList)

variable {source : SourceFile}

theorem text_eq (h : source.header ≠ []) :
    source.text.toList = (unended (source.header.map commentRow)).toList ++
      '*' :: '/' :: '\n' :: source.code.toList := by
  obtain ⟨first, rest, hHeader⟩ := List.exists_cons_of_ne_nil h
  have hComment : commentText source.header =
      "/**\n" ++ String.join (source.header.map commentLine) ++ " */\n" := by
    rw [hHeader]
    rfl
  rw [text, hComment, map_commentLine, unended, code, text, commentText]
  simp

/-- **The header closes exactly when every entry is harmless.** -/
theorem headerCloses_iff (h : source.header ≠ []) :
    source.HeaderCloses ↔ ∀ entry ∈ source.header, Harmless entry := by
  constructor
  · rintro ⟨lines, hLength, hLines, hSplit, hOpen⟩
    rw [text_eq h] at hSplit
    have hSame := List.append_cancel_right hSplit
    rw [← hSame, closes_unended] at hOpen
    -- the breaks in the comment are as many as there are entries, so none is inside an entry
    have hCount := congrArg (List.count '\n') hSame
    simp only [unended, String.toList_append, List.count_append, count_lines, List.length_map,
      hLength, count_breaks_eq_zero.2 hLines] at hCount
    have hRows : Text.AllOneLine (source.header.map commentRow) :=
      count_breaks_eq_zero.1 (by omega)
    intro entry hEntry
    refine ⟨fun hCloses => hOpen ⟨entry, hEntry, hCloses⟩, ?_⟩
    exact (oneLine_commentRow entry).1 (hRows _ (List.mem_map_of_mem hEntry))
  · intro hHarmless
    refine ⟨source.header.map commentRow, List.length_map _, ?_, text_eq h, ?_⟩
    · intro row hRow
      obtain ⟨entry, hEntry, rfl⟩ := List.mem_map.1 hRow
      exact (oneLine_commentRow entry).2 (hHarmless entry hEntry).oneLine
    · rw [closes_unended]
      rintro ⟨entry, hEntry, hCloses⟩
      exact (hHarmless entry hEntry).noEnd hCloses

end TypeScript.SourceFile

/-! ## Modules -/

/-- The numbers of a version are harmless, so its text is when its suffix is. -/
theorem harmless_version (version : Version) :
    Harmless version.text ↔ Harmless version.suffix := by
  have hStar (value : Int) : '*' ∉ (toString value).toList := by
    intro h
    rcases Text.mem_toString h with hDigit | hSign
    · exact absurd hDigit (by decide)
    · exact absurd hSign (by decide)
  have hDot : Text.OneLine "." := by simp [Text.OneLine]
  have hNumbers (rest : String) : Harmless (toString version.major ++ "." ++
      toString version.minor ++ "." ++ toString version.patch ++ rest) ↔ Harmless rest :=
    harmless_append
      (by simp only [String.toList_append, List.mem_append, hStar, or_false, false_or]; decide)
      (by simp only [Text.oneLine_append, Text.oneLine_toString, hDot, and_self])
  rw [Version.text, hNumbers]
  split
  case isTrue h => rw [h]
  case isFalse => exact harmless_append (by decide) (by simp [Text.OneLine])

variable {file : FileDescriptor}

/-- The words of the header are harmless, so its entries are when the names in them are. -/
theorem harmless_header (version : Option Version) :
    (∀ entry ∈ file.header version, Harmless entry) ↔
      Harmless file.name ∧ ∀ v, version = some v → Harmless v.suffix := by
  have hTitle : Harmless "Generated by protoc-gen-ts. DO NOT EDIT!" :=
    ⟨by decide, by simp [Text.OneLine]⟩
  have hName : Harmless ("source: " ++ file.name) ↔ Harmless file.name :=
    harmless_append (by decide) (by simp [Text.OneLine])
  have hVersion (v : Version) : Harmless ("compiler version: " ++ v.text) ↔ Harmless v.suffix :=
    (harmless_append (by decide) (by simp [Text.OneLine])).trans (harmless_version v)
  cases version with
  | none => simp [FileDescriptor.header, hTitle, hName]
  | some v => simp [FileDescriptor.header, hTitle, hName, hVersion, and_comm]

/-- **Which headers close.** The text of a module begins with a comment, and this comment is closed
behind its last entry, with one line for each of them, exactly when neither the name of the file nor
the suffix of the compiler version holds an end of a comment or a line break. -/
theorem module_header_closes_iff {registry : Registry} {settings : Settings}
    {version : Option Version} {source : SourceFile}
    (hSource : file.sourceFile registry settings version = .ok source) :
    "/**\n".toList <+: source.text.toList ∧
      (source.HeaderCloses ↔
        Harmless file.name ∧ ∀ v, version = some v → Harmless v.suffix) := by
  obtain ⟨decls, -, hSource⟩ := bind_eq_ok.1 hSource
  obtain rfl := pure_eq_ok.1 hSource
  have hEntries : file.header version ≠ [] := by simp [FileDescriptor.header]
  refine ⟨?_, (SourceFile.headerCloses_iff hEntries).trans (harmless_header version)⟩
  rw [SourceFile.text_eq hEntries, unended]
  simp

/-- The module of an empty file, made for a release candidate of the compiler. -/
theorem module_header_closes_iff_candidate :
    let file : FileDescriptor := { FileDescriptor.blank with name := "a/b.proto" }
    let version : Version := ⟨3, 21, 12, "rc1"⟩
    ∃ source, file.sourceFile Registry.empty .standard (some version) = .ok source ∧
      source.text = "/**\n * Generated by protoc-gen-ts. DO NOT EDIT!\n" ++
        " * compiler version: 3.21.12-rc1\n * source: a/b.proto\n */\n" ∧
      source.HeaderCloses := by
  intro file version
  let source : SourceFile :=
    ⟨["Generated by protoc-gen-ts. DO NOT EDIT!", "compiler version: 3.21.12-rc1",
      "source: a/b.proto"], [], []⟩
  have hSource : file.sourceFile Registry.empty .standard (some version) = .ok source := rfl
  have hText : source.text = "/**\n * Generated by protoc-gen-ts. DO NOT EDIT!\n" ++
      " * compiler version: 3.21.12-rc1\n * source: a/b.proto\n */\n" := by decide
  have hName : Harmless file.name := ⟨by decide, by simp [Text.OneLine, file]⟩
  have hSuffix : Harmless version.suffix := ⟨by decide, by simp [Text.OneLine, version]⟩
  refine ⟨source, hSource, hText, (module_header_closes_iff hSource).2.2 ⟨hName, ?_⟩⟩
  rintro v ⟨⟩
  exact hSuffix

/-- The name of a folder may end with an asterisk. The comment of a module in it ends within the
name of the file, and the rest of the name stands behind the comment. -/
theorem starred_folder_ends_header :
    let file : FileDescriptor := { FileDescriptor.blank with name := "a*/b.proto" }
    ∃ source, file.sourceFile Registry.empty .standard none = .ok source ∧
      source.text = "/**\n * Generated by protoc-gen-ts. DO NOT EDIT!\n" ++
        " * source: a*/b.proto\n */\n" ∧
      EndsFirst source.text.toList
        "/**\n * Generated by protoc-gen-ts. DO NOT EDIT!\n * source: a".toList
        "b.proto\n */\n".toList ∧
      ¬ source.HeaderCloses := by
  intro file
  let source : SourceFile :=
    ⟨["Generated by protoc-gen-ts. DO NOT EDIT!", "source: a*/b.proto"], [], []⟩
  have hSource : file.sourceFile Registry.empty .standard none = .ok source := rfl
  have hText : source.text = "/**\n * Generated by protoc-gen-ts. DO NOT EDIT!\n" ++
      " * source: a*/b.proto\n */\n" := by decide
  refine ⟨source, hSource, hText, ⟨by simp [hText], by decide⟩, fun hCloses => ?_⟩
  have hHarmless := (SourceFile.headerCloses_iff (List.cons_ne_nil _ _)).1 hCloses
    "source: a*/b.proto" (List.mem_cons_of_mem _ List.mem_cons_self)
  exact hHarmless.noEnd (by decide)

end Protoscribe

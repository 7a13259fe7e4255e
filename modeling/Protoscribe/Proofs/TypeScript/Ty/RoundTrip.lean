import Protoscribe.Proofs.TypeScript.Ty.Reading

set_option autoImplicit false

/-! # Printed types are read back

A type is written with parentheses in two places only, around a joined element of an array and around
a union inside an intersection. Main statement: `read_text_flattened`, nothing else needs them. The
text of a type is read to its end, and what is read has the same flat form as the type.

The reader gives the members of a union one by one, also those of a union inside the union. So what
is known about the tokens of a type (`Parsed`) is which types are read there as alternatives, as
factors or as an element, and that these bring in the same members as the type itself.
-/

namespace Protoscribe.TypeScript

open Layout (text)

namespace TypeGrammar

variable {t : Ty} {types : List Ty} {ts : List Token} {properties : List (PropertyType Ty)}
  {index : Option (IndexType Ty)}

/-! ## What is read for a type -/

/-- Types that bring the same members into a join as one type does, all of them flat. -/
def Brings (kind : Join) (found : List Ty) (t : Ty) : Prop :=
  (found.flatMap fun part => kind.members part.flattened) = kind.members t.flattened

theorem Brings.flattened_joined {kind : Join} (h : Brings kind types t) :
    (kind.joined types).flattened = t.flattened :=
  Ty.flattened_joined (Ty.flat_flattened t) h

theorem Brings.of_flattened (kind : Join) {found : Ty} (h : found.flattened = t.flattened) :
    Brings kind [found] t := by
  rw [Brings, List.flatMap_singleton, h]

/-- What is known about the tokens of a type: they are read as alternatives that bring the members of
the type into a union, unless it is a union as factors too, and unless it is joined as an element. -/
structure Parsed (t : Ty) (ts : List Token) : Prop where
  alternatives : ∃ found, Alternatives found ts ∧ Brings .union found t
  factors : t.isUnion = false → ∃ found, Factors found ts ∧ Brings .intersection found t
  element : t.isJoined = false → ∃ found, Element found ts ∧ found.flattened = t.flattened

namespace Parsed

theorem alternatives_of_factors {found : List Ty} (h : Factors found ts)
    (hBrings : Brings .intersection found t) :
    ∃ found, Alternatives found ts ∧ Brings .union found t :=
  ⟨[Join.intersection.joined found], .single ⟨found, h, rfl⟩,
    .of_flattened .union hBrings.flattened_joined⟩

theorem of_element {found : Ty} (h : Element found ts) (hSame : found.flattened = t.flattened) :
    Parsed t ts where
  alternatives := alternatives_of_factors (.single h) (.of_flattened _ hSame)
  factors _ := ⟨[found], .single h, .of_flattened _ hSame⟩
  element _ := ⟨found, h, hSame⟩

theorem intersection {members found : List Ty} (h : Factors found ts)
    (hBrings : Brings .intersection found (.intersection members)) :
    Parsed (.intersection members) ts where
  alternatives := alternatives_of_factors h hBrings
  factors _ := ⟨found, h, hBrings⟩
  element hJoined := absurd hJoined (by simp [Ty.isJoined])

theorem union {members found : List Ty} (h : Alternatives found ts)
    (hBrings : Brings .union found (.union members)) : Parsed (.union members) ts where
  alternatives := ⟨found, h, hBrings⟩
  factors hUnion := absurd hUnion (by simp [Ty.isUnion])
  element hJoined := absurd hJoined (by simp [Ty.isJoined])

theorem exists_reads (h : Parsed t ts) : ∃ found, Reads found ts ∧ found.flattened = t.flattened := by
  obtain ⟨found, hAlternatives, hBrings⟩ := h.alternatives
  exact ⟨_, .of_alternatives hAlternatives, hBrings.flattened_joined⟩

theorem exists_parenthesized (h : Parsed t ts) :
    ∃ found, Element found (.mark "(" :: (ts ++ [.mark ")"])) ∧ found.flattened = t.flattened := by
  obtain ⟨found, hReads, hSame⟩ := h.exists_reads
  exact ⟨found, hReads.parenthesized, hSame⟩

end Parsed

/-- The text of a type is written as tokens from which its members are read. -/
def Legible (t : Ty) : Prop := ∃ ts, Writes t.layout ts ∧ Parsed t ts

namespace Legible

/-- The element of an array. -/
theorem exists_element (h : Legible t) :
    ∃ ts found, Writes (if t.isJoined then t.layout.parenthesized else t.layout) ts ∧
      Element found ts ∧ found.flattened = t.flattened := by
  obtain ⟨ts, hWrites, hParsed⟩ := h
  cases hJoined : t.isJoined with
  | true =>
      obtain ⟨found, hElement, hSame⟩ := hParsed.exists_parenthesized
      exact ⟨_, found, hWrites.parenthesized.writes, hElement, hSame⟩
  | false =>
      obtain ⟨found, hElement, hSame⟩ := hParsed.element hJoined
      exact ⟨ts, found, hWrites, hElement, hSame⟩

/-- A member of an intersection. -/
theorem exists_factors (h : Legible t) :
    ∃ ts found, Writes (if t.isUnion then t.layout.parenthesized else t.layout) ts ∧
      Factors found ts ∧ Brings .intersection found t := by
  obtain ⟨ts, hWrites, hParsed⟩ := h
  cases hUnion : t.isUnion with
  | true =>
      obtain ⟨found, hElement, hSame⟩ := hParsed.exists_parenthesized
      exact ⟨_, [found], hWrites.parenthesized.writes, .single hElement, .of_flattened _ hSame⟩
  | false =>
      obtain ⟨found, hFactors, hBrings⟩ := hParsed.factors hUnion
      exact ⟨ts, found, hWrites, hFactors, hBrings⟩

theorem array {element : Ty} (h : Legible element) : Legible (.array element) := by
  obtain ⟨ts, found, hWrites, hElement, hSame⟩ := h.exists_element
  have hSigns : Separator (text "[]") [.mark "[", .mark "]"] := .text (by decide +kernel)
  refine ⟨_, ?_, .of_element hElement.array ?_⟩
  · rw [Ty.layout]
    exact hWrites.append hSigns
  · rw [Ty.flattened, Ty.flattened, hSame]

theorem union {members : List Ty} (hMembers : members ≠ []) (h : ∀ t ∈ members, Legible t) :
    Legible (.union members) := by
  have hSeparator : Separator (text " | ") [.mark "|"] := .text (by decide +kernel)
  have hMember : ∀ t ∈ members, ∃ ts found, Writes t.layout ts ∧ Alternatives found ts ∧
      Brings .union found t := by
    intro t ht
    obtain ⟨ts, hWrites, hParsed⟩ := h t ht
    obtain ⟨found, hAlternatives, hBrings⟩ := hParsed.alternatives
    exact ⟨ts, found, hWrites, hAlternatives, hBrings⟩
  obtain ⟨ts, found, hWrites, hChain, hBrings⟩ := exists_chain hSeparator hMembers hMember
  refine ⟨ts, ?_, .union hChain ?_⟩
  · rwa [Ty.layout, layouts_eq_map]
  · exact hBrings.trans (Ty.members_flattened_type .union members).symm

theorem intersection {members : List Ty} (hMembers : members ≠ [])
    (h : ∀ t ∈ members, Legible t) : Legible (.intersection members) := by
  have hSeparator : Separator (text " & ") [.mark "&"] := .text (by decide +kernel)
  obtain ⟨ts, found, hWrites, hChain, hBrings⟩ :=
    exists_chain hSeparator hMembers fun t ht => (h t ht).exists_factors
  refine ⟨ts, ?_, .intersection hChain ?_⟩
  · rwa [Ty.layout, intersectionLayouts_eq_map]
  · exact hBrings.trans (Ty.members_flattened_type .intersection members).symm

theorem query {path : String} (h : IsDotted path) : Legible (.query path) := by
  obtain ⟨ts, hWrites, hChain⟩ := h.exists_chain
  have hElement := Element.query hChain
  rw [join_names] at hElement
  have hText := hWrites.behind (by decide : isIdentifier "typeof")
  exact ⟨_, hText, .of_element hElement rfl⟩

theorem reference {name : String} {arguments : List Ty} (hName : IsDotted name)
    (hHead : (Text.segments '.' name).head? ≠ some "typeof") (h : ∀ t ∈ arguments, Legible t) :
    Legible (.reference name arguments) := by
  obtain ⟨ts, hWrites, hChain⟩ := hName.exists_chain
  cases arguments with
  | nil =>
      have hElement := Element.named hChain hHead
      rw [join_names] at hElement
      exact ⟨ts, hWrites, .of_element hElement rfl⟩
  | cons first others =>
      have hComma : Separator (text ", ") [.mark ","] := .text (by decide +kernel)
      have hOpen : Separator (text "<") [.mark "<"] := .text (by decide +kernel)
      have hClose : Separator (text ">") [.mark ">"] := .text (by decide +kernel)
      have hArgument : ∀ t ∈ first :: others, ∃ ts found, Writes t.layout ts ∧
          Chain (.mark ",") Reads found ts ∧ found.flatMap (fun u => [u.flattened]) = [t.flattened] := by
        intro t ht
        obtain ⟨ts, hWrites, hParsed⟩ := h t ht
        obtain ⟨found, hReads, hSame⟩ := hParsed.exists_reads
        exact ⟨ts, [found], hWrites, .single hReads, by rw [List.flatMap_singleton, hSame]⟩
      obtain ⟨us, found, hArguments, hReads, hSame⟩ :=
        exists_chain hComma (List.cons_ne_nil _ _) hArgument
      have hElement := Element.applied hChain hHead hReads
      rw [join_names] at hElement
      refine ⟨_, ?_, .of_element hElement ?_⟩
      · have hText := (hWrites.joined hOpen hArguments).append hClose
        simpa [Ty.layout, Layout.listed, layouts_eq_map] using hText
      · rw [← List.map_eq_flatMap, ← List.map_eq_flatMap] at hSame
        rw [Ty.flattened, Ty.flattened, Ty.allFlattened_eq_map, Ty.allFlattened_eq_map, hSame]

end Legible

/-! ## Members of object types -/

/-- The members of an object type are written as tokens that are read as members with the same flat
forms. -/
def LegibleFields (properties : List (PropertyType Ty)) (index : Option (IndexType Ty)) : Prop :=
  ∃ tokens, List.Forall₂ Writes (Ty.propertyLayouts properties ++ Ty.indexLayouts index) tokens ∧
    ∃ found foundIndex,
      (∀ rest, fields (tokens.flatMap (· ++ [.mark ";"]) ++ .mark "\x7d" :: rest) =
        some ((found, foundIndex), rest)) ∧
      Ty.propertiesFlattened found = Ty.propertiesFlattened properties ∧
      Ty.indexFlattened foundIndex = Ty.indexFlattened index

namespace LegibleFields

theorem nil : LegibleFields [] none :=
  ⟨[], .nil, [], none, fields_nil, rfl, rfl⟩

theorem signature {parameter : String} {key value : Ty} (hParameter : isIdentifier parameter)
    (hKey : Legible key) (hValue : Legible value) :
    LegibleFields [] (some ⟨parameter, key, value⟩) := by
  obtain ⟨ts, hKeyWrites, hKeyParsed⟩ := hKey
  obtain ⟨us, hValueWrites, hValueParsed⟩ := hValue
  obtain ⟨foundKey, hKeyReads, hKeySame⟩ := hKeyParsed.exists_reads
  obtain ⟨foundValue, hValueReads, hValueSame⟩ := hValueParsed.exists_reads
  have hOpen : Separator (text "[") [.mark "["] := .text (by decide +kernel)
  have hColon : Separator (text ": ") [.mark ":"] := .text (by decide +kernel)
  have hClose : Separator (text "]: ") [.mark "]", .mark ":"] := .text (by decide +kernel)
  have hText := hOpen.append_writes
    (((Writes.word hParameter).joined hColon hKeyWrites).joined hClose hValueWrites)
  refine ⟨[_], .cons (by simpa using hText) .nil, [], some ⟨parameter, foundKey, foundValue⟩,
    fun rest => ?_, rfl, ?_⟩
  · have hRead := fields_signature parameter hKeyReads hValueReads (fields_nil rest)
    simpa using hRead
  · rw [Ty.indexFlattened, Ty.indexFlattened, hKeySame, hValueSame]

theorem cons {name : String} {optional : Bool} (hName : isIdentifier name) (h : Legible t)
    (hMore : LegibleFields properties index) :
    LegibleFields (⟨name, optional, t⟩ :: properties) index := by
  obtain ⟨ts, hWrites, hParsed⟩ := h
  obtain ⟨foundType, hReads, hSame⟩ := hParsed.exists_reads
  obtain ⟨tokens, hLayouts, found, foundIndex, hFields, hProperties, hIndex⟩ := hMore
  have hMark : Separator (text (propertyMark optional)) (propertyMarks optional) := by
    cases optional
    · exact .text (by decide +kernel)
    · exact .text (by decide +kernel)
  refine ⟨_ :: tokens, .cons ((Writes.word hName).joined hMark hWrites) hLayouts,
    ⟨name, optional, foundType⟩ :: found, foundIndex, fun rest => ?_, ?_, hIndex⟩
  · have hRead := fields_property name optional hReads (hFields rest)
    simpa using hRead
  · rw [Ty.propertiesFlattened, Ty.propertiesFlattened, hSame, hProperties]

theorem of_all (hNames : ∀ p ∈ properties, isIdentifier p.name) (h : ∀ p ∈ properties, Legible p.type)
    (hIndex : LegibleFields [] index) : LegibleFields properties index := by
  induction properties with
  | nil => exact hIndex
  | cons property rest ih =>
      obtain ⟨hName, hNames⟩ := List.forall_mem_cons.1 hNames
      obtain ⟨hType, hTypes⟩ := List.forall_mem_cons.1 h
      exact .cons hName hType (ih hNames hTypes)

theorem legible (h : LegibleFields properties index) : Legible (.record properties index) := by
  obtain ⟨tokens, hLayouts, found, foundIndex, hFields, hProperties, hIndex⟩ := h
  refine ⟨_, ?_, .of_element (.record hFields) ?_⟩
  · rw [Ty.layout]
    exact (separator_record hLayouts).writes
  · rw [Ty.flattened, Ty.flattened, hProperties, hIndex]

end LegibleFields

end TypeGrammar

/-! ## Reading back -/

/-- The types that can be written: no union and no intersection is empty, names and paths are
identifiers with dots between them, and the names of properties and parameters are identifiers. A
name does not begin with `typeof`. -/
inductive Ty.Printable : Ty → Prop
  | reference {name : String} {arguments : List Ty} (hName : TypeGrammar.IsDotted name)
      (hHead : (Text.segments '.' name).head? ≠ some "typeof") (h : ∀ t ∈ arguments, Printable t) :
      Printable (.reference name arguments)
  | array {element : Ty} (h : Printable element) : Printable (.array element)
  | union {members : List Ty} (hMembers : members ≠ []) (h : ∀ t ∈ members, Printable t) :
      Printable (.union members)
  | intersection {members : List Ty} (hMembers : members ≠ []) (h : ∀ t ∈ members, Printable t) :
      Printable (.intersection members)
  | record {properties : List (PropertyType Ty)} {index : Option (IndexType Ty)}
      (hNames : ∀ p ∈ properties, isIdentifier p.name) (h : ∀ p ∈ properties, Printable p.type)
      (hParameter : ∀ s ∈ index, isIdentifier s.parameter) (hKey : ∀ s ∈ index, Printable s.key)
      (hValue : ∀ s ∈ index, Printable s.value) : Printable (.record properties index)
  | literal (value : String) : Printable (.literal value)
  | query {path : String} (hPath : TypeGrammar.IsDotted path) : Printable (.query path)

open TypeGrammar

theorem Ty.Printable.legible {t : Ty} (h : t.Printable) : TypeGrammar.Legible t := by
  induction h with
  | reference hName hHead _ ih => exact .reference hName hHead ih
  | array _ ih => exact ih.array
  | union hMembers _ ih => exact .union hMembers ih
  | intersection hMembers _ ih => exact .intersection hMembers ih
  | @record properties index hNames _ hParameter _ _ ih ihKey ihValue =>
      refine (LegibleFields.of_all hNames ih ?_).legible
      cases index with
      | none => exact .nil
      | some s => exact .signature (hParameter s rfl) (ihKey s rfl) (ihValue s rfl)
  | literal value => exact ⟨_, .quoted value, .of_element (.literal value) rfl⟩
  | query hPath => exact .query hPath

/-- **A printed type is read back**, at whatever depth it is printed: the reader uses up the whole
text, and what it finds has the flat form of the type. -/
theorem read_text_flattened {t : Ty} (h : t.Printable) (level : Nat) :
    (Ty.read (t.text level)).map Ty.flattened = some t.flattened := by
  obtain ⟨ts, hWrites, hParsed⟩ := h.legible
  obtain ⟨found, hReads, hSame⟩ := hParsed.exists_reads
  have hTokens : TypeGrammar.lex (t.text level).toList = some ts := by
    have hText := hWrites level [] fun _ h => by cases h
    simpa [Ty.text, TypeGrammar.lex_nil] using hText
  have hTree : type ts = some (found, []) := by
    have hRead := hReads.reads [] (by decide)
    rwa [List.append_nil] at hRead
  rw [Ty.read, hTokens, Option.bind_some, hTree, Option.map_some, hSame]

/-- An array of a union: an intersection with another union in it, nested type arguments that close
side by side, types of values, and an object type. -/
def nestedEntries : Ty :=
  .array (.union [
    .intersection [.reference "api.Box" [.reference "Box" [.named "T"]],
      .union [.query "api.none", .array (.query "empty")]],
    .record [⟨"first", true, .literal "a\n"⟩]
      (some ⟨"key", .named "string", .union [.union [.named "A"], .named "B"]⟩)])

theorem printable_nestedEntries : nestedEntries.Printable := by
  have hNamed : ∀ name ∈ ["T", "string", "A", "B"], (Ty.named name).Printable := by
    intro name hName
    have hDotted : ∀ name ∈ ["T", "string", "A", "B"], IsDotted name ∧
        (Text.segments '.' name).head? ≠ some "typeof" := by decide +kernel
    exact .reference (hDotted name hName).1 (hDotted name hName).2 (by simp)
  have hBox : (Ty.reference "api.Box" [.reference "Box" [.named "T"]]).Printable := by
    have hInner : (Ty.reference "Box" [.named "T"]).Printable :=
      .reference (by decide +kernel) (by decide +kernel) (by simpa using hNamed "T" (by simp))
    exact .reference (by decide +kernel) (by decide +kernel) (by simpa using hInner)
  have hQueries : (Ty.union [.query "api.none", .array (.query "empty")]).Printable := by
    have hFirst : (Ty.query "api.none").Printable := .query (by decide +kernel)
    have hSecond : (Ty.query "empty").Printable := .query (by decide +kernel)
    exact .union (by simp) (by simpa using ⟨hFirst, hSecond.array⟩)
  have hValue : (Ty.union [.union [.named "A"], .named "B"]).Printable := by
    have hInner : (Ty.union [.named "A"]).Printable :=
      .union (by simp) (by simpa using hNamed "A" (by simp))
    exact .union (by simp) (by simpa using ⟨hInner, hNamed "B" (by simp)⟩)
  have hMeet := Ty.Printable.intersection (by simp) (List.forall_mem_cons.2
    ⟨hBox, List.forall_mem_singleton.2 hQueries⟩)
  have hRecord : (Ty.record [⟨"first", true, .literal "a\n"⟩]
      (some ⟨"key", .named "string", .union [.union [.named "A"], .named "B"]⟩)).Printable := by
    refine .record (by decide) (by simpa using .literal _) ?_ ?_ ?_
    · rintro _ ⟨⟩
      decide
    · rintro _ ⟨⟩
      exact hNamed "string" (by simp)
    · rintro _ ⟨⟩
      exact hValue
  exact .array (.union (by simp) (by simpa using ⟨hMeet, hRecord⟩))

theorem read_text_flattened_nestedEntries :
    nestedEntries.Printable ∧
    nestedEntries.text 1 =
      "(api.Box<Box<T>> & (typeof api.none | typeof empty[]) | \x7b\n" ++
      "        first?: \"a\\n\";\n        [key: string]: A | B;\n    \x7d)[]" ∧
    (Ty.read (nestedEntries.text 1)).map Ty.flattened = some nestedEntries.flattened :=
  ⟨printable_nestedEntries, by decide +kernel, read_text_flattened printable_nestedEntries 1⟩

end Protoscribe.TypeScript

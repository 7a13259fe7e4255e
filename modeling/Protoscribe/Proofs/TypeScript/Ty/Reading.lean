import Protoscribe.Proofs.TypeScript.Ty.Spelling

set_option autoImplicit false

/-! # What is read where in a type

A token that can go on behind a type has a grip (`grip`): a place in a type takes it up when it grips
at least as tight as what the place is for. Three kinds of places hold types: the elements of arrays
(`Element`), the members of intersections (`Factors`) and those of unions (`Alternatives`). The last
two are chains, and the reader of a chain takes it part by part (`Chain.reads`).

Main statements: `factors_chain`, `alternatives_chain` and `arguments_chain` for the chains, and one
statement for each kind of type that is an element.
-/

namespace Protoscribe.TypeScript.TypeGrammar

/-! ## What a type takes up -/

/-- How tight a token holds on to the type in front of it; zero when no type goes on with it. -/
def grip (t : Token) : Nat :=
  if t = .mark "|" then 1
  else if t = .mark "&" then 2
  else if t = .mark "[" then 3
  else if t = .mark "<" then 4
  else if t = .mark "." then 5
  else 0

/-- The grip of the first token; the end of the tokens holds on to nothing. -/
def firstGrip : List Token → Nat
  | [] => 0
  | t :: _ => grip t

variable {β : Type} {t : Ty} {types : List Ty} {ts us rest : List Token} {n : Nat}

theorem firstGrip_lt {t : Token} (h : grip t < n) : firstGrip (t :: rest) < n := h

theorem past_of_ne {sign t : Token} {otherwise : Option β}
    {next : Token → (behind : List Token) → behind.length < (t :: rest).length → Option β}
    (h : t ≠ sign) : past [sign] (t :: rest) otherwise next = otherwise := by
  simp only [past, if_neg (mt List.mem_singleton.1 h)]

theorem past_of_firstGrip {sign : Token} {otherwise : Option β}
    {next : Token → (behind : List Token) → behind.length < ts.length → Option β}
    (h : firstGrip ts < grip sign) : past [sign] ts otherwise next = otherwise := by
  cases ts with
  | nil => rfl
  | cons t rest =>
      refine past_of_ne ?_
      rintro rfl
      exact Nat.lt_irrefl _ h

theorem past_self {sign : Token} {otherwise : Option β}
    {next : Token → (behind : List Token) → behind.length < (sign :: rest).length → Option β} :
    past [sign] (sign :: rest) otherwise next = next sign rest (Nat.lt_succ_self _) :=
  past_of_mem (List.mem_singleton_self sign)

namespace Chain

variable {sign : Token} {Part : β → List Token → Prop} {parts : List β}

theorem nonempty (hPart : ∀ {part ts}, Part part ts → ts ≠ []) (h : Chain sign Part parts ts) :
    ts ≠ [] := by
  cases h with
  | single h => exact hPart h
  | cons h hMore => exact List.append_ne_nil_of_right_ne_nil _ (List.cons_ne_nil _ _)

/-- **A reader that takes a chain part by part** takes the whole chain. -/
theorem reads {reader : List Token → Option (List β × List Token)} {behind : List Token}
    (hLast : ∀ {part ts}, Part part ts → reader (ts ++ rest) = some ([part], behind))
    (hMore : ∀ {part ts} more, Part part ts → reader (ts ++ sign :: more) =
      (reader more).map fun (parts, behind) => (part :: parts, behind))
    (h : Chain sign Part parts ts) : reader (ts ++ rest) = some (parts, behind) := by
  induction h with
  | single h => exact hLast h
  | cons h _ ih => rw [List.append_assoc, List.cons_append, hMore _ h, ih, Option.map_some]

end Chain

/-! ## Names -/

theorem names_chain {parts : List String} (h : Chain (.mark ".") IsWord parts ts)
    (hRest : firstGrip rest < 5) : names (ts ++ rest) = some (parts, rest) := by
  refine Chain.reads ?_ ?_ h
  · rintro name _ rfl
    rw [List.singleton_append, names, named_word, past_of_firstGrip hRest]
  · rintro name _ more rfl
    rw [List.singleton_append, names, named_word, past_self]

theorem IsWord.head_chain {parts : List String} (h : Chain (.mark ".") IsWord parts ts) :
    ∃ name others us, parts = name :: others ∧ ts = .word name :: us := by
  cases h with
  | single h => exact ⟨_, _, _, rfl, h⟩
  | @cons name others _ us h _ =>
      rw [h]
      exact ⟨name, others, .mark "." :: us, rfl, rfl⟩

/-! ## Elements, factors and alternatives -/

/-- The tokens are read as the type, and array signs may follow. -/
structure Element (t : Ty) (ts : List Token) : Prop where
  nonempty : ts ≠ []
  reads : ∀ rest, firstGrip rest < 4 → suffixed (ts ++ rest) = arrays t rest

/-- The tokens are read as the types with `&` between them. -/
abbrev Factors : List Ty → List Token → Prop := Chain (.mark "&") Element

/-- The tokens are read as an intersection. -/
def Alternative (t : Ty) (ts : List Token) : Prop :=
  ∃ found, Factors found ts ∧ Join.intersection.joined found = t

/-- The tokens are read as the types with `|` between them. -/
abbrev Alternatives : List Ty → List Token → Prop := Chain (.mark "|") Alternative

/-- The tokens are read as the type, up to something that no type goes on with. -/
structure Reads (t : Ty) (ts : List Token) : Prop where
  nonempty : ts ≠ []
  reads : ∀ rest, firstGrip rest < 1 → type (ts ++ rest) = some (t, rest)

namespace Element

theorem of_primary (hTokens : ts ≠ [])
    (h : ∀ rest, firstGrip rest < 4 → primary (ts ++ rest) = some (t, rest)) : Element t ts := by
  refine ⟨hTokens, fun rest hRest => ?_⟩
  rw [suffixed, h rest hRest, consume_some (length_lt_append hTokens)]

theorem array (h : Element t ts) : Element (.array t) (ts ++ [.mark "[", .mark "]"]) := by
  refine ⟨List.append_ne_nil_of_left_ne_nil h.nonempty _, fun rest _ => ?_⟩
  calc suffixed ((ts ++ [.mark "[", .mark "]"]) ++ rest)
      = arrays t (.mark "[" :: .mark "]" :: rest) := by
        rw [List.append_assoc]
        exact h.reads _ (firstGrip_lt (by decide))
    _ = arrays (.array t) rest := by rw [arrays, past_self, past_self]

theorem factors_append (h : Element t ts) (hRest : firstGrip rest < 3) :
    factors (ts ++ rest) = past [.mark "&"] rest (some ([t], rest)) fun _ more _ =>
      (factors more).map fun (others, behind) => (t :: others, behind) := by
  have hFirst : suffixed (ts ++ rest) = some (t, rest) := by
    rw [h.reads rest (by omega), arrays, past_of_firstGrip hRest]
  rw [factors, hFirst, consume_some (length_lt_append h.nonempty)]

end Element

theorem factors_chain (h : Factors types ts) (hRest : firstGrip rest < 2) :
    factors (ts ++ rest) = some (types, rest) := by
  refine Chain.reads (fun h => ?_) (fun more h => ?_) h
  · rw [h.factors_append (by omega), past_of_firstGrip hRest]
  · rw [h.factors_append (firstGrip_lt (by decide)), past_self]

namespace Alternative

theorem nonempty (h : Alternative t ts) : ts ≠ [] := by
  obtain ⟨found, hFactors, -⟩ := h
  exact hFactors.nonempty Element.nonempty

theorem alternatives_append (h : Alternative t ts) (hRest : firstGrip rest < 2) :
    alternatives (ts ++ rest) = past [.mark "|"] rest (some ([t], rest)) fun _ more _ =>
      (alternatives more).map fun (others, behind) => (t :: others, behind) := by
  have hNonempty := h.nonempty
  obtain ⟨found, hFactors, rfl⟩ := h
  rw [alternatives, factors_chain hFactors hRest, consume_some (length_lt_append hNonempty)]

end Alternative

theorem alternatives_chain (h : Alternatives types ts) (hRest : firstGrip rest < 1) :
    alternatives (ts ++ rest) = some (types, rest) := by
  refine Chain.reads (fun h => ?_) (fun more h => ?_) h
  · rw [h.alternatives_append (by omega), past_of_firstGrip hRest]
  · rw [h.alternatives_append (firstGrip_lt (by decide)), past_self]

namespace Reads

theorem of_alternatives (h : Alternatives types ts) : Reads (Join.union.joined types) ts where
  nonempty := h.nonempty Alternative.nonempty
  reads rest hRest := by rw [type, alternatives_chain h hRest, Option.map_some]

theorem parenthesized (h : Reads t ts) : Element t (.mark "(" :: (ts ++ [.mark ")"])) := by
  refine .of_primary (List.cons_ne_nil _ _) fun rest _ => ?_
  rw [List.cons_append, List.append_assoc, List.singleton_append, primary, if_pos rfl,
    h.reads _ (firstGrip_lt (by decide)), closed_some]

theorem arguments_append (h : Reads t ts) (hRest : firstGrip rest < 1) :
    arguments (ts ++ rest) =
      past [.mark ","] rest (past [.mark ">"] rest none fun _ behind _ => some ([t], behind))
        fun _ more _ => (arguments more).map fun (others, behind) => (t :: others, behind) := by
  rw [arguments, h.reads rest hRest, consume_some (length_lt_append h.nonempty)]

/-- A type behind a colon. -/
theorem annotated (h : Reads t ts) {closing : Token} (hClosing : grip closing < 1) :
    annotated closing (.mark ":" :: (ts ++ closing :: rest)) = some (t, rest) := by
  rw [TypeGrammar.annotated, past_self, h.reads _ (firstGrip_lt hClosing), closed_some]

end Reads

theorem arguments_chain (h : Chain (.mark ",") Reads types ts) :
    arguments (ts ++ .mark ">" :: rest) = some (types, rest) := by
  refine Chain.reads (fun h => ?_) (fun more h => ?_) h
  · rw [h.arguments_append (firstGrip_lt (by decide)), past_of_ne (by decide), past_self]
  · rw [h.arguments_append (firstGrip_lt (by decide)), past_self]

/-! ## Names with their arguments, and the types of values -/

theorem Element.literal (content : String) : Element (.literal content) [.text content] :=
  .of_primary (List.cons_ne_nil _ _) fun rest _ => by rw [List.singleton_append, primary]

theorem Element.query {parts : List String} (h : Chain (.mark ".") IsWord parts ts) :
    Element (.query (String.intercalate "." parts)) (.word "typeof" :: ts) := by
  refine .of_primary (List.cons_ne_nil _ _) fun rest hRest => ?_
  rw [List.cons_append, primary, if_pos rfl, names_chain h (by omega), Option.map_some]

theorem reference_chain {parts : List String} (h : Chain (.mark ".") IsWord parts ts)
    (hHead : parts.head? ≠ some "typeof") (hRest : firstGrip rest < 5) :
    primary (ts ++ rest) =
      past [.mark "<"] rest (some (.reference (String.intercalate "." parts) [], rest))
        fun _ inner _ => (arguments inner).map fun (types, behind) =>
          (.reference (String.intercalate "." parts) types, behind) := by
  obtain ⟨name, others, us, rfl, rfl⟩ := IsWord.head_chain h
  have hName : name ≠ "typeof" := fun hSame => hHead (congrArg some hSame)
  rw [List.cons_append, primary, if_neg hName, ← List.cons_append, reference, names_chain h hRest,
    consume_some (length_lt_append (List.cons_ne_nil _ _))]

theorem Element.named {parts : List String} (h : Chain (.mark ".") IsWord parts ts)
    (hHead : parts.head? ≠ some "typeof") :
    Element (.reference (String.intercalate "." parts) []) ts := by
  refine .of_primary ?_ fun rest hRest => ?_
  · obtain ⟨name, others, us, -, rfl⟩ := IsWord.head_chain h
    exact List.cons_ne_nil _ _
  · rw [reference_chain h hHead (by omega), past_of_firstGrip hRest]

theorem Element.applied {parts : List String} (h : Chain (.mark ".") IsWord parts ts)
    (hHead : parts.head? ≠ some "typeof") (hArguments : Chain (.mark ",") Reads types us) :
    Element (.reference (String.intercalate "." parts) types)
      (ts ++ .mark "<" :: (us ++ [.mark ">"])) := by
  refine .of_primary (List.append_ne_nil_of_right_ne_nil _ (List.cons_ne_nil _ _)) fun rest _ => ?_
  rw [List.append_assoc, List.cons_append, List.append_assoc, List.singleton_append,
    reference_chain h hHead (firstGrip_lt (by decide)), past_self, arguments_chain hArguments,
    Option.map_some]

/-! ## Object types -/

/-- The signs between the name and the type of a property. -/
def propertyMarks (optional : Bool) : List Token :=
  if optional then [.mark "?", .mark ":"] else [.mark ":"]

variable {properties : List (PropertyType Ty)} {index : Option (IndexType Ty)} {more : List Token}

theorem fields_nil (rest : List Token) : fields (.mark "\x7d" :: rest) = some (([], none), rest) := by
  rw [fields, past_self]

theorem fields_property (name : String) (optional : Bool) (h : Reads t ts)
    (hMore : fields more = some ((properties, index), rest)) :
    fields (.word name :: (propertyMarks optional ++ (ts ++ .mark ";" :: more))) =
      some ((⟨name, optional, t⟩ :: properties, index), rest) := by
  have hProperty : property name optional (.mark ":" :: (ts ++ .mark ";" :: more)) =
      some ((⟨name, optional, t⟩ :: properties, index), rest) := by
    rw [property, h.annotated (by decide), consume_some, hMore, Option.map_some]
    simp only [List.length_cons, List.length_append]
    omega
  have hName : fields (.word name :: (propertyMarks optional ++ (ts ++ .mark ";" :: more))) =
      property name optional (.mark ":" :: (ts ++ .mark ";" :: more)) := by
    rw [fields, past_of_ne (by simp), past_of_ne (by simp), named_word]
    cases optional with
    | true => exact past_self
    | false => exact past_of_ne (by decide)
  rw [hName, hProperty]

theorem fields_signature (parameter : String) {key value : Ty} (hKey : Reads key ts)
    (hValue : Reads value us) (hMore : fields more = some ((properties, none), rest)) :
    fields (.mark "[" :: .word parameter :: .mark ":" ::
        (ts ++ .mark "]" :: .mark ":" :: (us ++ .mark ";" :: more))) =
      some ((properties, some ⟨parameter, key, value⟩), rest) := by
  have hRest : annotated (.mark ";") (.mark ":" :: (us ++ .mark ";" :: more)) =
      some (value, more) := hValue.annotated (by decide)
  rw [fields, past_of_ne (by decide), past_self, signature, named_word,
    hKey.annotated (by decide), consume_some, hRest, consume_some, hMore]
  · rfl
  · simp only [List.length_cons, List.length_append]
    omega
  · simp only [List.length_cons, List.length_append]
    omega

theorem Element.record
    (h : ∀ rest, fields (ts ++ .mark "\x7d" :: rest) = some ((properties, index), rest)) :
    Element (.record properties index) (.mark "\x7b" :: (ts ++ [.mark "\x7d"])) := by
  refine .of_primary (List.cons_ne_nil _ _) fun rest _ => ?_
  rw [List.cons_append, List.append_assoc, List.singleton_append, primary, if_neg (by decide),
    if_pos rfl, h rest, Option.map_some]

end Protoscribe.TypeScript.TypeGrammar

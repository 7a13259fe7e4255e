import Protoscribe.Proofs.Text.Segments
import Protoscribe.Settings

set_option autoImplicit false

/-! # The last effective token decides

A text of settings is a list of tokens, and the text determines the list (`spells_iff`). A token has
an effect on at most one of the settings, the one that its key names; what an effective token says
is `Token.promise?`, `Token.callPackage?` and `Token.style?`. Main statement:
`ofText_last_effective`, each setting is what the last token with an effect on it says. So tokens
without effect can stand anywhere, and tokens with different keys can be told in any order.

Reading the tokens is a fold, and each setting is carried through it on its own (`foldl_set`).
-/

namespace Protoscribe.Settings

/-! ## Tokens -/

/-- A token: its key and, when it has an equals sign, its value. -/
structure Token where
  key : String
  value? : Option String
  deriving DecidableEq

namespace Token

/-- The token as it is written. -/
def text : Token → String
  | ⟨key, none⟩ => key
  | ⟨key, some value⟩ => key ++ "=" ++ value

/-- Whether calls give promises: everything but the value `false` says that they do. -/
def promise? (token : Token) : Option Bool :=
  if token.key = "unary_rpc_promise" then some (token.value? ≠ some "false") else none

/-- The module of the call runtime. -/
def callPackage? (token : Token) : Option String :=
  if token.key = "grpc_package" then token.value? else none

/-- The style, when it is one of the two. -/
def style? (token : Token) : Option Style :=
  if token.key ≠ "style" then none
  else if token.value? = some "grpc-js" then some .callback
  else if token.value? = some "async" then some .promise
  else none

/-- Tokens that say nothing: those with another key, those without a value where one is needed, and
those that name no style. -/
inductive Ineffective : Token → Prop
  | other {key : String} {value? : Option String} (promise : key ≠ "unary_rpc_promise")
      (callPackage : key ≠ "grpc_package") (style : key ≠ "style") : Ineffective ⟨key, value?⟩
  | barePackage : Ineffective ⟨"grpc_package", none⟩
  | bareStyle : Ineffective ⟨"style", none⟩
  | unknownStyle {name : String} (callback : name ≠ "grpc-js") (promise : name ≠ "async") :
      Ineffective ⟨"style", some name⟩

end Token

/-- The text is the tokens with commas between them. A token has no comma and a key no equals
sign. -/
structure Spells (tokens : List Token) (text : String) : Prop where
  joined : String.intercalate "," (tokens.map Token.text) = text
  nonempty : tokens ≠ []
  commas : ∀ token ∈ tokens, ',' ∉ token.text.toList
  keys : ∀ token ∈ tokens, '=' ∉ token.key.toList

/-- The tokens of a text. -/
def tokens (text : String) : List Token :=
  (Text.segments ',' text).map fun part =>
    let (key, value?) := Text.cutFirst '=' part
    ⟨key, value?⟩

/-- A token is read back from its text. -/
theorem cutFirst_text {token : Token} (h : '=' ∉ token.key.toList) :
    Text.cutFirst '=' token.text = (token.key, token.value?) := by
  obtain ⟨key, value?⟩ := token
  cases value? with
  | none => exact Text.cutFirst_none h
  | some value =>
      have hText : Token.text ⟨key, some value⟩ = key ++ (String.singleton '=' ++ value) :=
        String.append_assoc ..
      rw [hText]
      exact Text.cutFirst_some h value

theorem segments_of_spells {list : List Token} {text : String} (h : Spells list text) :
    Text.segments ',' text = list.map Token.text := by
  have hParts : ∀ part ∈ list.map Token.text, ',' ∉ part.toList := by
    intro part hPart
    obtain ⟨token, hToken, rfl⟩ := List.mem_map.1 hPart
    exact h.commas token hToken
  rw [← h.joined]
  exact Text.segments_intercalate hParts (by simpa using h.nonempty)

theorem spells_tokens (text : String) : Spells (tokens text) text := by
  have hText : ∀ part,
      (Token.mk (Text.cutFirst '=' part).1 (Text.cutFirst '=' part).2).text = part ∧
        '=' ∉ (Text.cutFirst '=' part).1.toList := by
    intro part
    rcases Text.cutFirst_cases '=' part with ⟨hNone, hCut⟩ | ⟨before, after, hBefore, rfl, hCut⟩
    · rw [hCut]
      exact ⟨rfl, hNone⟩
    · rw [hCut]
      exact ⟨String.append_assoc .., hBefore⟩
  have hParts : (tokens text).map Token.text = Text.segments ',' text := by
    rw [tokens, List.map_map]
    exact (List.map_congr_left fun part _ => (hText part).1).trans (List.map_id _)
  refine ⟨?_, ?_, ?_, ?_⟩
  · rw [hParts]
    exact Text.join_segments ',' text
  · simpa [tokens] using Text.segments_ne_nil ',' text
  · intro token hToken
    exact Text.not_mem_segment (hParts ▸ List.mem_map_of_mem hToken)
  · intro token hToken
    obtain ⟨part, -, rfl⟩ := List.mem_map.1 hToken
    exact (hText part).2

/-- **A text has one list of tokens.** -/
theorem spells_iff {list : List Token} {text : String} : Spells list text ↔ list = tokens text := by
  constructor
  · intro h
    rw [tokens, segments_of_spells h, List.map_map]
    refine ((List.map_congr_left fun token hToken => ?_).trans (List.map_id list)).symm
    simp only [Function.comp_apply, cutFirst_text (h.keys token hToken), id_eq]
  · rintro rfl
    exact spells_tokens text

/-! ## The last token that says something -/

variable {α : Type}

/-- What the last of the tokens that say anything says. -/
def last? (effect? : Token → Option α) (list : List Token) : Option α :=
  list.reverse.findSome? effect?

theorem last?_append (effect? : Token → Option α) (a b : List Token) :
    last? effect? (a ++ b) = (last? effect? b).or (last? effect? a) := by
  simp [last?]

theorem last?_eq_none {effect? : Token → Option α} {list : List Token}
    (h : ∀ token ∈ list, effect? token = none) : last? effect? list = none := by
  simpa [last?] using h

/-- Only the tokens with its key say something about a setting. -/
theorem last?_filter {effect? : Token → Option α} {key : String}
    (only : ∀ token, token.key ≠ key → effect? token = none) (list : List Token) :
    last? effect? (list.filter (·.key = key)) = last? effect? list := by
  induction list with
  | nil => rfl
  | cons token list ih =>
      have hList := last?_append effect? [token] list
      rw [List.singleton_append] at hList
      by_cases hKey : token.key = key
      · rw [List.filter_cons_of_pos (by simpa using hKey), hList, ← List.singleton_append,
          last?_append, ih]
      · have hSilent : last? effect? [token] = none :=
          last?_eq_none (by simpa using only token hKey)
        rw [List.filter_cons_of_neg (by simpa using hKey), hList, ih, hSilent, Option.or_none]

/-- **A setting through the fold.** When each token either says what the setting becomes or leaves
it, the last token that says something decides. -/
theorem foldl_set {get : Settings → α} {effect? : Token → Option α}
    (step : ∀ settings token, get (set settings token.key token.value?) =
      (effect? token).getD (get settings)) (settings : Settings) (list : List Token) :
    get (list.foldl (fun settings token => set settings token.key token.value?) settings) =
      (last? effect? list).getD (get settings) := by
  induction list generalizing settings with
  | nil => rfl
  | cons token list ih =>
      rw [List.foldl_cons, ih, step, ← List.singleton_append, last?_append]
      cases last? effect? list <;> simp [last?]

/-! ## The three settings -/

/-- The settings that the last effective tokens decide. -/
def decided (list : List Token) : Settings where
  unaryPromise := (last? Token.promise? list).getD false
  callPackage := (last? Token.callPackage? list).getD "@grpc/grpc-js"
  style := (last? Token.style? list).getD .callback

theorem unaryPromise_set (settings : Settings) (token : Token) :
    (set settings token.key token.value?).unaryPromise =
      token.promise?.getD settings.unaryPromise := by
  rw [set, Token.promise?]
  split_ifs
  · rfl
  · rfl
  · split <;> rfl
  · rfl

theorem callPackage_set (settings : Settings) (token : Token) :
    (set settings token.key token.value?).callPackage =
      token.callPackage?.getD settings.callPackage := by
  rw [set, Token.callPackage?]
  split_ifs with hPromise hPackage
  · exact absurd (hPromise.symm.trans hPackage) (by decide)
  · rfl
  · rfl
  · split <;> rfl
  · rfl

theorem style_set (settings : Settings) (token : Token) :
    (set settings token.key token.value?).style = token.style?.getD settings.style := by
  obtain ⟨key, value?⟩ := token
  rw [set, Token.style?]
  by_cases hStyle : key = "style"
  · subst hStyle
    cases value? with
    | none => simp
    | some name =>
        by_cases hCallback : name = "grpc-js"
        · simp [hCallback, Style.ofName]
        · by_cases hPromise : name = "async" <;> simp [hCallback, hPromise, Style.ofName]
  · split_ifs <;> simp_all

theorem ofText_of_spells {list : List Token} {text : String} (h : Spells list text) :
    ofText text = decided list := by
  have hFold : ofText text =
      list.foldl (fun settings token => set settings token.key token.value?) standard := by
    rw [ofText, segments_of_spells h, List.foldl_map]
    refine List.foldl_ext _ _ _ fun settings token hToken => ?_
    rw [apply, cutFirst_text (h.keys token hToken)]
  have hPromise := foldl_set unaryPromise_set standard list
  have hPackage := foldl_set callPackage_set standard list
  have hStyle := foldl_set style_set standard list
  rw [← hFold] at hPromise hPackage hStyle
  calc ofText text = ⟨(ofText text).unaryPromise, (ofText text).callPackage, (ofText text).style⟩ :=
        rfl
    _ = decided list := by
        rw [hPromise, hPackage, hStyle]
        rfl

/-! ## Tokens that make no difference -/

theorem Token.Ineffective.silent {token : Token} (h : token.Ineffective) :
    token.promise? = none ∧ token.callPackage? = none ∧ token.style? = none := by
  cases h with
  | other promise callPackage style =>
      exact ⟨if_neg promise, if_neg callPackage, if_pos style⟩
  | barePackage => exact ⟨rfl, rfl, rfl⟩
  | bareStyle => exact ⟨rfl, rfl, rfl⟩
  | unknownStyle callback promise =>
      exact ⟨rfl, rfl, by simp [Token.style?, callback, promise]⟩

theorem last?_insert {effect? : Token → Option α} {inserted : List Token}
    (silent : ∀ token ∈ inserted, effect? token = none) (before after : List Token) :
    last? effect? (before ++ (inserted ++ after)) = last? effect? (before ++ after) := by
  simp only [last?_append, last?_eq_none silent, Option.or_none]

/-- Ineffective tokens can stand anywhere. -/
theorem decided_insert {inserted : List Token} (h : ∀ token ∈ inserted, token.Ineffective)
    (before after : List Token) :
    decided (before ++ (inserted ++ after)) = decided (before ++ after) := by
  have hPromise := last?_insert (fun token hToken => (h token hToken).silent.1) before after
  have hPackage := last?_insert (fun token hToken => (h token hToken).silent.2.1) before after
  have hStyle := last?_insert (fun token hToken => (h token hToken).silent.2.2) before after
  rw [decided, hPromise, hPackage, hStyle]
  rfl

/-- Only the order of the tokens with the same key matters. -/
theorem decided_reorder {a b : List Token}
    (same : ∀ key, a.filter (·.key = key) = b.filter (·.key = key)) : decided a = decided b := by
  have hLast : ∀ {β : Type} {effect? : Token → Option β} {key : String},
      (∀ token : Token, token.key ≠ key → effect? token = none) →
        last? effect? a = last? effect? b := by
    intro β effect? key only
    rw [← last?_filter only a, same key, last?_filter only b]
  have hPromise : last? Token.promise? a = last? Token.promise? b :=
    hLast fun token hKey => if_neg hKey
  have hPackage : last? Token.callPackage? a = last? Token.callPackage? b :=
    hLast fun token hKey => if_neg hKey
  have hStyle : last? Token.style? a = last? Token.style? b :=
    hLast fun token hKey => if_pos hKey
  rw [decided, hPromise, hPackage, hStyle]
  rfl

/-- **The last effective token for each key decides.** A text is one list of tokens, cut at the
commas and then each at its first equals sign, and the settings are what the last effective token of
each of the three keys says. So ineffective tokens, put in anywhere, change nothing, and neither
does another order of the tokens in which those with the same key keep theirs. -/
theorem ofText_last_effective :
    (∀ text, ∃! list, Spells list text) ∧
    (∀ list text, Spells list text → ofText text = decided list) ∧
    (∀ before inserted after text longer, Spells (before ++ after) text →
      Spells (before ++ (inserted ++ after)) longer →
      (∀ token ∈ inserted, token.Ineffective) → ofText longer = ofText text) ∧
    ∀ list reordered text other, Spells list text → Spells reordered other →
      (∀ key, reordered.filter (·.key = key) = list.filter (·.key = key)) →
      ofText other = ofText text := by
  refine ⟨fun text => ?_, fun _ _ => ofText_of_spells, ?_, ?_⟩
  · exact ⟨tokens text, spells_tokens text, fun _ h => spells_iff.1 h⟩
  · intro before inserted after text longer hText hLonger hInserted
    rw [ofText_of_spells hText, ofText_of_spells hLonger, decided_insert hInserted]
  · intro list reordered text other hText hOther same
    rw [ofText_of_spells hText, ofText_of_spells hOther, decided_reorder same]

/-- A text in which each key is said more than once, and its tokens. -/
def crowdedText : String :=
  "unary_rpc_promise,style=async,grpc_package=a=b,unary_rpc_promise=false,grpc_package,style=x"

def crowded : List Token :=
  [⟨"unary_rpc_promise", none⟩, ⟨"style", some "async"⟩, ⟨"grpc_package", some "a=b"⟩,
    ⟨"unary_rpc_promise", some "false"⟩, ⟨"grpc_package", none⟩, ⟨"style", some "x"⟩]

/-- The same tokens in another order, in which those with the same key keep theirs. -/
def regroupedText : String :=
  "grpc_package=a=b,style=async,style=x,unary_rpc_promise,grpc_package,unary_rpc_promise=false"

def regrouped : List Token :=
  [⟨"grpc_package", some "a=b"⟩, ⟨"style", some "async"⟩, ⟨"style", some "x"⟩,
    ⟨"unary_rpc_promise", none⟩, ⟨"grpc_package", none⟩, ⟨"unary_rpc_promise", some "false"⟩]

theorem ofText_last_effective_crowded :
    Spells crowded crowdedText ∧ ofText crowdedText = ⟨false, "a=b", .promise⟩ ∧
    (∀ token ∈ crowded.drop 4, token.Ineffective) ∧
    ofText crowdedText =
      ofText "unary_rpc_promise,style=async,grpc_package=a=b,unary_rpc_promise=false" ∧
    (∀ key, regrouped.filter (·.key = key) = crowded.filter (·.key = key)) ∧
    ofText regroupedText = ofText crowdedText := by
  obtain ⟨-, hDecided, hInserted, hReordered⟩ := ofText_last_effective
  have hCrowded : Spells crowded crowdedText := ⟨by decide, by decide, by decide, by decide⟩
  have hRegrouped : Spells regrouped regroupedText := ⟨by decide, by decide, by decide, by decide⟩
  have hIneffective : ∀ token ∈ crowded.drop 4, token.Ineffective := by
    intro token hToken
    rcases List.mem_pair.1 hToken with rfl | rfl
    · exact .barePackage
    · exact .unknownStyle (by decide) (by decide)
  have hSame : ∀ key, regrouped.filter (·.key = key) = crowded.filter (·.key = key) := by
    intro key
    by_cases hPromise : "unary_rpc_promise" = key
    · subst hPromise
      decide
    · by_cases hPackage : "grpc_package" = key
      · subst hPackage
        decide
      · by_cases hStyle : "style" = key
        · subst hStyle
          decide
        · simp [crowded, regrouped, hPromise, hPackage, hStyle]
  refine ⟨hCrowded, hDecided _ _ hCrowded, hIneffective, ?_, hSame,
    hReordered _ _ _ _ hCrowded hRegrouped hSame⟩
  exact hInserted (crowded.take 4) (crowded.drop 4) [] _ _
    ⟨by decide, by decide, by decide, by decide⟩ hCrowded hIneffective

end Protoscribe.Settings

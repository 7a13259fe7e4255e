import Protoscribe.Proofs.TypeScript.Layout
import Protoscribe.TypeScript.Decl.Layout

set_option autoImplicit false

/-! # Printing deeper is moving to the right

The raw texts of a tree (`raw`) are those that are printed as they are: names, dotted paths, type
parameters, operators and numbers. String literals and the keys of object literals are printed
through `Text.quoted` and may hold anything. Main statement: `text_deeper`, a tree whose raw texts
stand on one line is printed one step deeper by moving its text four blanks to the right.

A tree with such raw texts has an explicit layout, by induction over all kinds of trees; the rest is
said about layouts. So nothing here depends on where a tree stands.
-/

namespace Protoscribe.TypeScript

open Layout (text Explicit AllExplicit explicit_listed explicit_separated)
open Text (OneLine AllOneLine hang indentLines)

/-! ## Raw texts -/

mutual

/-- The names, parameters and paths in a type. -/
def Ty.raw : Ty → List String
  | .reference name arguments => name :: Ty.raws arguments
  | .array element => element.raw
  | .union members => Ty.raws members
  | .intersection members => Ty.raws members
  | .record properties index => Ty.propertyRaws properties ++ Ty.indexRaws index
  | .literal _ => []
  | .query path => [path]

def Ty.raws : List Ty → List String
  | [] => []
  | type :: rest => type.raw ++ Ty.raws rest

def Ty.propertyRaws : List (PropertyType Ty) → List String
  | [] => []
  | ⟨name, _, type⟩ :: rest => name :: (type.raw ++ Ty.propertyRaws rest)

def Ty.indexRaws : Option (IndexType Ty) → List String
  | none => []
  | some ⟨parameter, key, value⟩ => parameter :: (key.raw ++ value.raw)

end

/-- The raw texts of a type, if there is one. -/
def annotationRaw (type : Option Ty) : List String :=
  match type with
  | none => []
  | some type => type.raw

/-- The names in a binding. -/
def Binding.raw : Binding → List String
  | .name single => [single]
  | .elements names => names

def Param.raw (param : Param) : List String := param.binding.raw ++ annotationRaw param.type

mutual

/-- The names, numbers and operators in an expression, and the raw texts of the types in it. -/
def Expr.raw : Expr → List String
  | .ident name => [name]
  | .thisRef => []
  | .superRef => []
  | .null => []
  | .bool _ => []
  | .number digits => [digits]
  | .string _ => []
  | .member target name => target.raw ++ [name]
  | .index target position => target.raw ++ position.raw
  | .call callee arguments => callee.raw ++ Expr.raws arguments
  | .construct callee arguments => callee.raw ++ Expr.raws arguments
  | .array items => Expr.raws items
  | .object properties _ => Expr.propertyRaws properties
  | .arrow params result body => params.flatMap Param.raw ++ annotationRaw result ++ body.raw
  | .arrowBlock params result body =>
    params.flatMap Param.raw ++ annotationRaw result ++ Stmt.raws body
  | .binary left operator right => left.raw ++ operator :: right.raw
  | .unary operator target => operator :: target.raw
  | .typeOf target => target.raw
  | .cast target type => target.raw ++ type.raw
  | .conditional condition positive negative => condition.raw ++ positive.raw ++ negative.raw

def Expr.raws : List Expr → List String
  | [] => []
  | e :: rest => e.raw ++ Expr.raws rest

def Expr.propertyRaws : List (PropertyKey × Expr) → List String
  | [] => []
  | (_, value) :: rest => value.raw ++ Expr.propertyRaws rest

/-- The raw texts of the parts of a statement, and the names it declares. -/
def Stmt.raw : Stmt → List String
  | .expr value => value.raw
  | .ret none => []
  | .ret (some value) => value.raw
  | .const binding type value => binding.raw ++ annotationRaw type ++ value.raw
  | .declare name => [name]
  | .branch condition body otherwise =>
    condition.raw ++ Stmt.raws body ++ Stmt.defaultRaws otherwise
  | .forOf binding items body => binding.raw ++ items.raw ++ Stmt.raws body
  | .loop condition body => condition.raw ++ Stmt.raws body
  | .select subject cases default =>
    subject.raw ++ Stmt.caseRaws cases ++ Stmt.defaultRaws default
  | .leave => []

def Stmt.raws : List Stmt → List String
  | [] => []
  | statement :: rest => statement.raw ++ Stmt.raws rest

def Stmt.caseRaws : List (Expr × List Stmt) → List String
  | [] => []
  | (label, body) :: rest => label.raw ++ Stmt.raws body ++ Stmt.caseRaws rest

def Stmt.defaultRaws : Option (List Stmt) → List String
  | none => []
  | some body => Stmt.raws body

end

def Member.raw : Member → List String
  | .constructor params body => params.flatMap Param.raw ++ Stmt.raws body
  | .getter name body => name :: Stmt.raws body
  | .setter name param body => name :: (param.raw ++ Stmt.raws body)
  | .method name _ _ params result body =>
    name :: (params.flatMap Param.raw ++ annotationRaw result ++ Stmt.defaultRaws body)
  | .property name _ type value =>
    name :: (annotationRaw type ++ match value with
      | none => []
      | some value => value.raw)
  | .index signature => Ty.indexRaws (some signature)

def ClassDecl.raw (decl : ClassDecl) : List String :=
  decl.name :: ((match decl.base with
    | none => []
    | some base => base.raw) ++ decl.members.flatMap Member.raw)

def EnumDecl.raw (decl : EnumDecl) : List String := decl.name :: decl.members.map Prod.fst

def InterfaceDecl.raw (decl : InterfaceDecl) : List String :=
  decl.name :: (decl.typeParams ++ decl.signatures.flatMap fun signature =>
    signature.params.flatMap Param.raw ++ signature.result.raw)

mutual

/-- The names and the raw texts in a declaration. -/
def Decl.raw : Decl → List String
  | .enumeration decl => decl.raw
  | .classDecl decl => decl.raw
  | .callable decl => decl.raw
  | .nspace name body => name :: Decl.raws body

def Decl.raws : List Decl → List String
  | [] => []
  | decl :: rest => decl.raw ++ Decl.raws rest

end

/-! ## Types -/

theorem explicit_recordLayout {members : List Layout} (h : AllExplicit members) :
    (recordLayout members).Explicit := by
  cases members with
  | nil => simp [recordLayout, OneLine]
  | cons first rest =>
      refine Layout.explicit_braced fun layout hLayout => ?_
      obtain ⟨member, hMember, rfl⟩ := List.mem_map.1 hLayout
      have hEnd : (text ";").Explicit := by simp [OneLine]
      exact (Layout.explicit_append _ _).2 ⟨h member hMember, hEnd⟩

theorem oneLine_propertyMark (optional : Bool) : OneLine (propertyMark optional) := by
  cases optional <;> simp [propertyMark, OneLine]

mutual

theorem Ty.explicit_layout : ∀ {type : Ty}, AllOneLine type.raw → type.layout.Explicit
  | .reference name [], h => by simpa [Ty.layout, Ty.raw, Ty.raws] using h
  | .reference name (first :: rest), h => by
      -- the arguments are laid out as one list, the first of them apart
      obtain ⟨hName, hArguments⟩ := (Text.allOneLine_cons _ _).1 h
      have hAll : AllExplicit (first.layout :: Ty.layouts rest) :=
        Ty.allExplicit_layouts hArguments
      have hListed := explicit_listed hAll
      simpa [Ty.layout, OneLine] using And.intro hName hListed
  | .array element, h => by
      have hElement : element.layout.Explicit := Ty.explicit_layout h
      rw [Ty.layout]
      split <;> simpa [OneLine] using hElement
  | .union members, h => by
      exact explicit_separated (by simp [OneLine]) (Ty.allExplicit_layouts h)
  | .intersection members, h => by
      exact explicit_separated (by simp [OneLine]) (Ty.allExplicit_intersectionLayouts h)
  | .record properties index, h => by
      obtain ⟨hProperties, hIndex⟩ := (Text.allOneLine_append _ _).1 h
      exact explicit_recordLayout ((Layout.allExplicit_append _ _).2
        ⟨Ty.allExplicit_propertyLayouts hProperties, Ty.allExplicit_indexLayouts hIndex⟩)
  | .literal value, _ => by simpa [Ty.layout] using Text.oneLine_quoted value
  | .query path, h => by simpa [Ty.layout, Ty.raw, OneLine] using h

theorem Ty.allExplicit_layouts : ∀ {types : List Ty}, AllOneLine (Ty.raws types) →
    AllExplicit (Ty.layouts types)
  | [], _ => Layout.allExplicit_nil
  | type :: rest, h => by
      obtain ⟨hType, hRest⟩ := (Text.allOneLine_append _ _).1 h
      exact (Layout.allExplicit_cons _ _).2 ⟨Ty.explicit_layout hType, Ty.allExplicit_layouts hRest⟩

theorem Ty.allExplicit_intersectionLayouts : ∀ {types : List Ty}, AllOneLine (Ty.raws types) →
    AllExplicit (Ty.intersectionLayouts types)
  | [], _ => Layout.allExplicit_nil
  | type :: rest, h => by
      obtain ⟨hType, hRest⟩ := (Text.allOneLine_append _ _).1 h
      have hFirst := Ty.explicit_layout hType
      refine (Layout.allExplicit_cons _ _).2 ⟨?_, Ty.allExplicit_intersectionLayouts hRest⟩
      split
      · exact (Layout.explicit_parenthesized _).2 hFirst
      · exact hFirst

theorem Ty.allExplicit_propertyLayouts : ∀ {properties : List (PropertyType Ty)},
    AllOneLine (Ty.propertyRaws properties) → AllExplicit (Ty.propertyLayouts properties)
  | [], _ => Layout.allExplicit_nil
  | ⟨name, optional, type⟩ :: rest, h => by
      obtain ⟨hName, h⟩ := (Text.allOneLine_cons _ _).1 h
      obtain ⟨hType, hRest⟩ := (Text.allOneLine_append _ _).1 h
      refine (Layout.allExplicit_cons _ _).2 ⟨?_, Ty.allExplicit_propertyLayouts hRest⟩
      simpa using And.intro hName ⟨oneLine_propertyMark optional, Ty.explicit_layout hType⟩

theorem Ty.allExplicit_indexLayouts : ∀ {index : Option (IndexType Ty)},
    AllOneLine (Ty.indexRaws index) → AllExplicit (Ty.indexLayouts index)
  | none, _ => Layout.allExplicit_nil
  | some ⟨parameter, key, value⟩, h => by
      obtain ⟨hParameter, h⟩ := (Text.allOneLine_cons _ _).1 h
      obtain ⟨hKey, hValue⟩ := (Text.allOneLine_append _ _).1 h
      have hTypes := And.intro (Ty.explicit_layout hKey) (Ty.explicit_layout hValue)
      simpa [Ty.indexLayouts, OneLine] using And.intro hParameter hTypes

end

theorem explicit_index {signature : IndexType Ty} (h : AllOneLine (Ty.indexRaws (some signature))) :
    signature.layout.Explicit :=
  Ty.allExplicit_indexLayouts h _ (List.mem_singleton_self _)

theorem explicit_ofType {type : Option Ty} (h : AllOneLine (annotationRaw type)) :
    Explicit ( annotation type) := by
  cases type with
  | none => exact Layout.explicit_nil
  | some type => simpa [OneLine, annotation] using Ty.explicit_layout h

/-! ## Expressions and statements -/

theorem oneLine_identifier {name : String} (h : isIdentifier name) : OneLine name := by
  unfold isIdentifier at h
  intro hNewline
  cases hName : name.toList with
  | nil => simp [hName] at hNewline
  | cons first rest =>
      rw [hName] at h hNewline
      obtain ⟨hFirst, hRest⟩ := Bool.and_eq_true_iff.1 h
      rcases List.mem_cons.1 hNewline with rfl | hMem
      · exact absurd hFirst (by decide)
      · exact absurd (List.all_eq_true.1 hRest _ hMem) (by decide)

/-- A key that holds a line break is no identifier, so it is quoted. -/
theorem oneLine_key (key : PropertyKey) : OneLine key.text := by
  cases key with
  | number value => exact Text.oneLine_toString value
  | name key =>
      rw [PropertyKey.text]
      split
      · rename_i hIdentifier
        exact oneLine_identifier hIdentifier
      · exact Text.oneLine_quoted key

theorem oneLine_binding {binding : Binding} (h : AllOneLine binding.raw) :
    OneLine binding.text := by
  cases binding with
  | name single => exact ((Text.allOneLine_cons _ _).1 h).1
  | elements names =>
      have hNames : OneLine (String.intercalate ", " names) :=
        Text.oneLine_intercalate (by simp [OneLine]) h
      rw [Binding.text, Text.oneLine_append, Text.oneLine_append]
      exact ⟨⟨by simp [OneLine], hNames⟩, by simp [OneLine]⟩

theorem explicit_param {param : Param} (h : AllOneLine param.raw) : param.layout.Explicit := by
  obtain ⟨hBinding, hType⟩ := (Text.allOneLine_append _ _).1 h
  have hMark : OneLine (if param.optional then "?" else "") := by split <;> simp [OneLine]
  have hParts := And.intro (oneLine_binding hBinding) hMark
  simpa [Param.layout] using And.intro hParts.1 ⟨hParts.2, explicit_ofType hType⟩

theorem explicit_params {params : List Param} (h : AllOneLine (params.flatMap Param.raw)) :
    (paramsLayout params).Explicit := by
  refine (Layout.explicit_parenthesized _).2 (explicit_listed fun layout hLayout => ?_)
  obtain ⟨param, hParam, rfl⟩ := List.mem_map.1 hLayout
  exact explicit_param fun content hContent => h _ (List.mem_flatMap.2 ⟨param, hParam, hContent⟩)

@[simp] theorem explicit_operand (need : Nat) (e : Expr) (layout : Layout) :
    (operand need e layout).Explicit ↔ layout.Explicit := by
  unfold operand
  split <;> simp

@[simp] theorem explicit_arrowBody (body : Expr) (layout : Layout) :
    (arrowBody body layout).Explicit ↔ layout.Explicit := by
  unfold arrowBody
  split <;> simp

theorem explicit_objectLayout {multiline : Bool} {properties : List Layout}
    (h : AllExplicit properties) : (objectLayout multiline properties).Explicit := by
  cases properties with
  | nil => simp [objectLayout, OneLine]
  | cons first rest =>
      rw [objectLayout]
      split
      · exact Layout.explicit_braced (Layout.allExplicit_commaEnded h)
      · simpa [OneLine] using explicit_listed h

mutual

theorem Expr.explicit_layout : ∀ {e : Expr}, AllOneLine e.raw → e.layout.Explicit
  | .ident name, h => by simpa [Expr.layout, Expr.raw] using h
  | .thisRef, _ => by simp [Expr.layout, OneLine]
  | .superRef, _ => by simp [Expr.layout, OneLine]
  | .null, _ => by simp [Expr.layout, OneLine]
  | .bool value, _ => by cases value <;> simp [Expr.layout, OneLine]
  | .number digits, h => by simpa [Expr.layout, Expr.raw] using h
  | .string value, _ => by simpa [Expr.layout] using Text.oneLine_quoted value
  | .member target name, h => by
      obtain ⟨hTarget, hName⟩ := (Text.allOneLine_append _ _).1 h
      have hLayout := Expr.explicit_layout hTarget
      simpa [Expr.layout, OneLine] using And.intro hLayout ((Text.allOneLine_cons _ _).1 hName).1
  | .index target position, h => by
      obtain ⟨hTarget, hPosition⟩ := (Text.allOneLine_append _ _).1 h
      have hLayouts := And.intro (Expr.explicit_layout hTarget) (Expr.explicit_layout hPosition)
      simpa [Expr.layout, OneLine] using hLayouts
  | .call callee arguments, h => by
      obtain ⟨hCallee, hArguments⟩ := (Text.allOneLine_append _ _).1 h
      have hListed := explicit_listed (Expr.allExplicit_layouts hArguments)
      simpa [Expr.layout] using And.intro (Expr.explicit_layout hCallee) hListed
  | .construct callee arguments, h => by
      obtain ⟨hCallee, hArguments⟩ := (Text.allOneLine_append _ _).1 h
      have hListed := explicit_listed (Expr.allExplicit_layouts hArguments)
      simpa [Expr.layout, OneLine] using And.intro (Expr.explicit_layout hCallee) hListed
  | .array items, h => by
      have hItems : AllExplicit (Expr.layouts items) := Expr.allExplicit_layouts h
      have hListed := explicit_listed hItems
      simpa [Expr.layout, OneLine] using hListed
  | .object properties multiline, h => by
      exact explicit_objectLayout (Expr.allExplicit_propertyLayouts h)
  | .arrow params result body, h => by
      obtain ⟨hHead, hBody⟩ := (Text.allOneLine_append _ _).1 h
      obtain ⟨hParams, hResult⟩ := (Text.allOneLine_append _ _).1 hHead
      have hParts := And.intro (explicit_ofType hResult) (Expr.explicit_layout hBody)
      simpa [Expr.layout, OneLine] using And.intro (explicit_params hParams) hParts
  | .arrowBlock params result body, h => by
      obtain ⟨hHead, hBody⟩ := (Text.allOneLine_append _ _).1 h
      obtain ⟨hParams, hResult⟩ := (Text.allOneLine_append _ _).1 hHead
      have hBlock := Layout.explicit_block (Stmt.allExplicit_allLines hBody)
      have hParts := And.intro (explicit_ofType hResult) hBlock
      simpa [Expr.layout, OneLine] using And.intro (explicit_params hParams) hParts
  | .binary left operator right, h => by
      obtain ⟨hLeft, h⟩ := (Text.allOneLine_append _ _).1 h
      obtain ⟨hOperator, hRight⟩ := (Text.allOneLine_cons _ _).1 h
      have hParts := And.intro hOperator (Expr.explicit_layout hRight)
      simpa [Expr.layout, OneLine] using And.intro (Expr.explicit_layout hLeft) hParts
  | .unary operator target, h => by
      obtain ⟨hOperator, hTarget⟩ := (Text.allOneLine_cons _ _).1 h
      simpa [Expr.layout] using And.intro hOperator (Expr.explicit_layout hTarget)
  | .typeOf target, h => by
      have hTarget := Expr.explicit_layout (e := target) h
      simpa [Expr.layout, OneLine] using hTarget
  | .cast target type, h => by
      obtain ⟨hTarget, hType⟩ := (Text.allOneLine_append _ _).1 h
      have hLayouts := And.intro (Expr.explicit_layout hTarget) (Ty.explicit_layout hType)
      simpa [Expr.layout, OneLine] using hLayouts
  | .conditional condition positive negative, h => by
      obtain ⟨h, hNegative⟩ := (Text.allOneLine_append _ _).1 h
      obtain ⟨hCondition, hPositive⟩ := (Text.allOneLine_append _ _).1 h
      have hBranches := And.intro (Expr.explicit_layout hPositive) (Expr.explicit_layout hNegative)
      simpa [Expr.layout, OneLine] using And.intro (Expr.explicit_layout hCondition) hBranches

theorem Expr.allExplicit_layouts : ∀ {items : List Expr}, AllOneLine (Expr.raws items) →
    AllExplicit (Expr.layouts items)
  | [], _ => Layout.allExplicit_nil
  | e :: rest, h => by
      obtain ⟨hFirst, hRest⟩ := (Text.allOneLine_append _ _).1 h
      exact (Layout.allExplicit_cons _ _).2
        ⟨Expr.explicit_layout hFirst, Expr.allExplicit_layouts hRest⟩

theorem Expr.allExplicit_propertyLayouts : ∀ {properties : List (PropertyKey × Expr)},
    AllOneLine (Expr.propertyRaws properties) → AllExplicit (Expr.propertyLayouts properties)
  | [], _ => Layout.allExplicit_nil
  | (key, value) :: rest, h => by
      obtain ⟨hValue, hRest⟩ := (Text.allOneLine_append _ _).1 h
      have hProperty := And.intro (oneLine_key key) (Expr.explicit_layout hValue)
      refine (Layout.allExplicit_cons _ _).2 ⟨?_, Expr.allExplicit_propertyLayouts hRest⟩
      simpa [OneLine] using hProperty

theorem Stmt.allExplicit_lines : ∀ {statement : Stmt}, AllOneLine statement.raw →
    Line.AllExplicit statement.lines
  | .expr value, h => by
      have hValue := Expr.explicit_layout (e := value) h
      simpa [Stmt.lines, OneLine] using hValue
  | .ret none, _ => by simp [Stmt.lines, OneLine]
  | .ret (some value), h => by
      have hValue := Expr.explicit_layout (e := value) h
      simpa [Stmt.lines, OneLine] using hValue
  | .const binding type value, h => by
      obtain ⟨h, hValue⟩ := (Text.allOneLine_append _ _).1 h
      obtain ⟨hBinding, hType⟩ := (Text.allOneLine_append _ _).1 h
      have hParts := And.intro (explicit_ofType hType) (Expr.explicit_layout hValue)
      simpa [Stmt.lines, OneLine] using And.intro (oneLine_binding hBinding) hParts
  | .declare name, h => by simpa [Stmt.lines, Stmt.raw, OneLine] using h
  | .branch condition body none, h => by
      obtain ⟨h, -⟩ := (Text.allOneLine_append _ _).1 h
      obtain ⟨hCondition, hBody⟩ := (Text.allOneLine_append _ _).1 h
      have hHeading := Expr.explicit_layout hCondition
      simpa [Stmt.lines, OneLine] using And.intro hHeading (Stmt.allExplicit_allLines hBody)
  | .branch condition body (some otherwise), h => by
      obtain ⟨h, hOtherwise⟩ := (Text.allOneLine_append _ _).1 h
      obtain ⟨hCondition, hBody⟩ := (Text.allOneLine_append _ _).1 h
      have hLines : Line.AllExplicit (Stmt.allLines otherwise) :=
        Stmt.allExplicit_allLines hOtherwise
      have hBodies := And.intro (Stmt.allExplicit_allLines hBody) hLines
      simpa [Stmt.lines, OneLine] using And.intro (Expr.explicit_layout hCondition) hBodies
  | .forOf binding items body, h => by
      obtain ⟨h, hBody⟩ := (Text.allOneLine_append _ _).1 h
      obtain ⟨hBinding, hItems⟩ := (Text.allOneLine_append _ _).1 h
      have hHeading := And.intro (oneLine_binding hBinding) (Expr.explicit_layout hItems)
      simpa [Stmt.lines, OneLine] using And.intro hHeading (Stmt.allExplicit_allLines hBody)
  | .loop condition body, h => by
      obtain ⟨hCondition, hBody⟩ := (Text.allOneLine_append _ _).1 h
      have hHeading := Expr.explicit_layout hCondition
      simpa [Stmt.lines, OneLine] using And.intro hHeading (Stmt.allExplicit_allLines hBody)
  | .select subject cases default, h => by
      obtain ⟨h, hDefault⟩ := (Text.allOneLine_append _ _).1 h
      obtain ⟨hSubject, hCases⟩ := (Text.allOneLine_append _ _).1 h
      have hBodies := And.intro (Stmt.allExplicit_caseLines hCases)
        (Stmt.allExplicit_defaultLines hDefault)
      simpa [Stmt.lines, OneLine] using And.intro (Expr.explicit_layout hSubject) hBodies
  | .leave, _ => by simp [Stmt.lines, OneLine]

theorem Stmt.allExplicit_allLines : ∀ {body : List Stmt}, AllOneLine (Stmt.raws body) →
    Line.AllExplicit (Stmt.allLines body)
  | [], _ => Line.allExplicit_nil
  | statement :: rest, h => by
      obtain ⟨hFirst, hRest⟩ := (Text.allOneLine_append _ _).1 h
      exact (Line.allExplicit_append _ _).2
        ⟨Stmt.allExplicit_lines hFirst, Stmt.allExplicit_allLines hRest⟩

theorem Stmt.allExplicit_caseLines : ∀ {cases : List (Expr × List Stmt)},
    AllOneLine (Stmt.caseRaws cases) → Line.AllExplicit (Stmt.caseLines cases)
  | [], _ => Line.allExplicit_nil
  | (label, body) :: rest, h => by
      obtain ⟨h, hRest⟩ := (Text.allOneLine_append _ _).1 h
      obtain ⟨hLabel, hBody⟩ := (Text.allOneLine_append _ _).1 h
      have hBodies := And.intro (Stmt.allExplicit_allLines hBody)
        (Stmt.allExplicit_caseLines hRest)
      simpa [Stmt.caseLines, OneLine] using And.intro (Expr.explicit_layout hLabel) hBodies

theorem Stmt.allExplicit_defaultLines : ∀ {body : Option (List Stmt)},
    AllOneLine (Stmt.defaultRaws body) → Line.AllExplicit (Stmt.defaultLines body)
  | none, _ => Line.allExplicit_nil
  | some body, h => by
      have hBody : Line.AllExplicit (Stmt.allLines body) := Stmt.allExplicit_allLines h
      simpa [Stmt.defaultLines, OneLine] using hBody

end

/-! ## Declarations -/

theorem explicit_modifier {word : String} (hWord : OneLine word) (applies : Bool) :
    (modifier applies word).Explicit := by
  cases applies with
  | false => simp [modifier]
  | true =>
      have hBlank : OneLine " " := by simp [OneLine]
      simpa [modifier] using And.intro hWord hBlank

theorem Member.allExplicit_lines {member : Member} (h : AllOneLine member.raw) :
    Line.AllExplicit member.lines := by
  cases member with
  | constructor params body =>
      obtain ⟨hParams, hBody⟩ := (Text.allOneLine_append _ _).1 h
      have hHeading := explicit_params hParams
      simpa [Member.lines, OneLine] using And.intro hHeading (Stmt.allExplicit_allLines hBody)
  | getter name body =>
      obtain ⟨hName, hBody⟩ := (Text.allOneLine_cons _ _).1 h
      simpa [Member.lines, OneLine] using And.intro hName (Stmt.allExplicit_allLines hBody)
  | setter name param body =>
      obtain ⟨hName, h⟩ := (Text.allOneLine_cons _ _).1 h
      obtain ⟨hParam, hBody⟩ := (Text.allOneLine_append _ _).1 h
      have hParams : (paramsLayout [param]).Explicit := explicit_params (by simpa using hParam)
      have hHeading := And.intro hName hParams
      simpa [Member.lines, OneLine] using And.intro hHeading (Stmt.allExplicit_allLines hBody)
  | method name isStatic isAbstract params result body =>
      obtain ⟨hName, h⟩ := (Text.allOneLine_cons _ _).1 h
      obtain ⟨h, hBody⟩ := (Text.allOneLine_append _ _).1 h
      obtain ⟨hParams, hResult⟩ := (Text.allOneLine_append _ _).1 h
      have hModifiers := And.intro
        (explicit_modifier (by simp [OneLine] : OneLine "static") isStatic)
        (explicit_modifier (by simp [OneLine] : OneLine "abstract") isAbstract)
      have hSignature := And.intro (explicit_params hParams) (explicit_ofType hResult)
      have hNamed := And.intro hName hSignature
      cases body with
      | none => simpa [Member.lines, OneLine, and_assoc] using And.intro hModifiers hNamed
      | some body =>
          have hLines : Line.AllExplicit (Stmt.allLines body) := Stmt.allExplicit_allLines hBody
          have hParts := And.intro hNamed hLines
          simpa [Member.lines, OneLine, and_assoc] using And.intro hModifiers hParts
  | property name isStatic type value =>
      obtain ⟨hName, h⟩ := (Text.allOneLine_cons _ _).1 h
      obtain ⟨hType, hValue⟩ := (Text.allOneLine_append _ _).1 h
      have hModifier := explicit_modifier (by simp [OneLine] : OneLine "static") isStatic
      have hDeclared := And.intro hName (explicit_ofType hType)
      cases value with
      | none => simpa [Member.lines, OneLine] using And.intro hModifier hDeclared
      | some value =>
          have hInitial := Expr.explicit_layout (e := value) hValue
          have hParts := And.intro hDeclared hInitial
          simpa [Member.lines, OneLine, and_assoc] using And.intro hModifier hParts
  | index signature =>
      simpa [Member.lines, OneLine] using explicit_index h

theorem ClassDecl.allExplicit_lines {decl : ClassDecl} (h : AllOneLine decl.raw) :
    Line.AllExplicit decl.lines := by
  obtain ⟨name, isAbstract, base, members⟩ := decl
  obtain ⟨hName, h⟩ := (Text.allOneLine_cons _ _).1 h
  obtain ⟨hBase, hMembers⟩ := (Text.allOneLine_append _ _).1 h
  have hModifier := explicit_modifier (by simp [OneLine] : OneLine "abstract") isAbstract
  have hLines : Line.AllExplicit (members.flatMap Member.lines) := by
    intro line hLine
    obtain ⟨member, hMember, hLine⟩ := List.mem_flatMap.1 hLine
    have hRaw : AllOneLine member.raw := fun content hContent =>
      hMembers _ (List.mem_flatMap.2 ⟨member, hMember, hContent⟩)
    exact Member.allExplicit_lines hRaw line hLine
  have hHeading := And.intro hModifier hName
  cases base with
  | none => simpa [ClassDecl.lines, OneLine, and_assoc] using And.intro hHeading hLines
  | some base =>
      have hExtends := And.intro hHeading (Expr.explicit_layout (e := base) hBase)
      simpa [ClassDecl.lines, OneLine, and_assoc] using And.intro hExtends hLines

theorem EnumDecl.allExplicit_lines {decl : EnumDecl} (h : AllOneLine decl.raw) :
    Line.AllExplicit decl.lines := by
  obtain ⟨hName, hMembers⟩ := (Text.allOneLine_cons _ _).1 h
  have hEntries : AllExplicit (decl.members.map fun member =>
      text member.1 ++ text " = " ++ text (toString member.2)) := by
    intro layout hLayout
    obtain ⟨⟨name, value⟩, hMember, rfl⟩ := List.mem_map.1 hLayout
    have hPart : OneLine name := hMembers _ (List.mem_map.2 ⟨_, hMember, rfl⟩)
    simpa [OneLine] using And.intro hPart (Text.oneLine_toString value)
  have hLines : Line.AllExplicit ((Layout.commaEnded (decl.members.map fun member =>
      text member.1 ++ text " = " ++ text (toString member.2))).map Line.flush) := by
    intro line hLine
    obtain ⟨layout, hLayout, rfl⟩ := List.mem_map.1 hLine
    exact Layout.allExplicit_commaEnded hEntries layout hLayout
  simpa [EnumDecl.lines, OneLine] using And.intro hName hLines

theorem explicit_signature {signature : CallSignature}
    (h : AllOneLine (signature.params.flatMap Param.raw ++ signature.result.raw)) :
    signature.layout.Explicit := by
  obtain ⟨hParams, hResult⟩ := (Text.allOneLine_append _ _).1 h
  have hParts := And.intro (explicit_params hParams) (Ty.explicit_layout hResult)
  simpa [CallSignature.layout, OneLine] using hParts

theorem InterfaceDecl.allExplicit_lines {decl : InterfaceDecl} (h : AllOneLine decl.raw) :
    Line.AllExplicit decl.lines := by
  obtain ⟨name, typeParams, signatures⟩ := decl
  obtain ⟨hName, h⟩ := (Text.allOneLine_cons _ _).1 h
  obtain ⟨hTypeParams, hSignatures⟩ := (Text.allOneLine_append _ _).1 h
  have hLines : Line.AllExplicit (signatures.map fun signature => Line.flush signature.layout) := by
    intro line hLine
    obtain ⟨signature, hSignature, rfl⟩ := List.mem_map.1 hLine
    exact explicit_signature fun content hContent =>
      hSignatures _ (List.mem_flatMap.2 ⟨signature, hSignature, hContent⟩)
  cases typeParams with
  | nil => simpa [InterfaceDecl.lines, OneLine] using And.intro hName hLines
  | cons first others =>
      have hList : OneLine (String.intercalate ", " (first :: others)) :=
        Text.oneLine_intercalate (by simp [OneLine]) hTypeParams
      have hHeading : OneLine ("<" ++ String.intercalate ", " (first :: others) ++ ">") := by
        rw [Text.oneLine_append, Text.oneLine_append]
        exact ⟨⟨by simp [OneLine], hList⟩, by simp [OneLine]⟩
      rw [InterfaceDecl.lines, Line.allExplicit_enclosed]
      refine ⟨?_, hLines, by simp [OneLine]⟩
      simpa only [Layout.explicit_append, Layout.explicit_text] using
        ⟨⟨⟨by simp [OneLine], hName⟩, hHeading⟩, by simp [OneLine]⟩

mutual

theorem Decl.allExplicit_lines : ∀ {decl : Decl}, AllOneLine decl.raw →
    Line.AllExplicit decl.lines
  | .enumeration _, h => EnumDecl.allExplicit_lines h
  | .classDecl _, h => ClassDecl.allExplicit_lines h
  | .callable _, h => InterfaceDecl.allExplicit_lines h
  | .nspace name body, h => by
      obtain ⟨hName, hBody⟩ := (Text.allOneLine_cons _ _).1 h
      simpa [Decl.lines, OneLine] using And.intro hName (Decl.allExplicit_allLines hBody)

theorem Decl.allExplicit_allLines : ∀ {body : List Decl}, AllOneLine (Decl.raws body) →
    Line.AllExplicit (Decl.allLines body)
  | [], _ => Line.allExplicit_nil
  | decl :: rest, h => by
      obtain ⟨hFirst, hRest⟩ := (Text.allOneLine_append _ _).1 h
      exact (Line.allExplicit_append _ _).2
        ⟨Decl.allExplicit_lines hFirst, Decl.allExplicit_allLines hRest⟩

end

/-! ## Texts -/

/-- What a list of declarations prints is what they print one after the other. -/
theorem renderAll_allLines (level : Nat) (body : List Decl) :
    Line.renderAll level (Decl.allLines body) = String.join (body.map (Decl.text · level)) := by
  induction body with
  | nil => rfl
  | cons decl rest ih =>
      rw [Decl.allLines, Line.renderAll_append, ih, List.map_cons, String.join_cons]
      rfl

/-- A namespace prints its heading, its body moved to the right, and its closing brace. -/
theorem text_nspace (name : String) {body : List Decl} (h : AllOneLine (Decl.raws body)) :
    (Decl.nspace name body).text 0 = "export namespace " ++ name ++ " \x7b\n" ++
      indentLines (String.join (body.map (Decl.text · 0))) ++ "\x7d\n" := by
  -- the body stands one step deeper, so it is moved as a whole
  have hBody : Line.renderAll 0 ((Decl.allLines body).map Line.indent) =
      indentLines (String.join (body.map (Decl.text · 0))) := by
    rw [Line.renderAll_indent, Line.renderAll_succ 0 (Decl.allExplicit_allLines h),
      renderAll_allLines]
  rw [Decl.text, Decl.lines, enclosed, Line.renderAll_cons, Line.renderAll_append, hBody]
  simp [Line.render, Line.flush, indentation, Layout.render_append, String.append_assoc]

/-- **A tree one step deeper is its text four blanks further to the right.** An expression or a type
continues a line, so its text hangs: every line but the first is moved. Statements and declarations
consist of whole lines, and all of these are moved. So a namespace is its heading, its body moved,
and its closing brace. -/
theorem text_deeper :
    (∀ (e : Expr) (level : Nat), AllOneLine e.raw → e.text (level + 1) = hang (e.text level)) ∧
    (∀ (type : Ty) (level : Nat), AllOneLine type.raw →
      type.text (level + 1) = hang (type.text level)) ∧
    (∀ (body : List Stmt) (level : Nat), AllOneLine (Stmt.raws body) →
      Line.renderAll (level + 1) (Stmt.allLines body) =
        indentLines (Line.renderAll level (Stmt.allLines body))) ∧
    (∀ (decl : Decl) (level : Nat), AllOneLine decl.raw →
      decl.text (level + 1) = indentLines (decl.text level)) ∧
    ∀ (name : String) (body : List Decl), AllOneLine (Decl.raws body) →
      (Decl.nspace name body).text 0 = "export namespace " ++ name ++ " \x7b\n" ++
        indentLines (String.join (body.map (Decl.text · 0))) ++ "\x7d\n" := by
  refine ⟨?_, ?_, ?_, ?_, ?_⟩
  · intro e level h
    exact Layout.render_succ level (Expr.explicit_layout h)
  · intro type level h
    exact Layout.render_succ level (Ty.explicit_layout h)
  · intro body level h
    exact Line.renderAll_succ level (Stmt.allExplicit_allLines h)
  · intro decl level h
    exact Line.renderAll_succ level (Decl.allExplicit_lines h)
  · intro name body h
    exact text_nspace name h

/-- A class with a method that returns a call; a table stands in a block in the call, and one of its
keys and one of its values hold a line break. -/
def shelfClass : Decl :=
  .classDecl ⟨"Shelf", false, none,
    [.method "open" true false [.typed "data" (.ofProperties [⟨"spot", true, .named "number"⟩])] none
      (some [.give (.call (.ident "wrap") [.arrowBlock [] none
        [.give (.object [(.name "first\nkey", .string "one\ntwo")] true)]])])]⟩

theorem text_deeper_shelfClass :
    AllOneLine shelfClass.raw ∧
      shelfClass.text 1 = indentLines (shelfClass.text 0) ∧
      (Decl.nspace "p" [shelfClass]).text 0 = "export namespace p \x7b\n" ++
        indentLines (String.join [shelfClass.text 0]) ++ "\x7d\n" ∧
      shelfClass.text 0 = String.join ["export class Shelf \x7b\n",
        "    static open(data: \x7b\n",
        "        spot?: number;\n",
        "    \x7d) \x7b\n",
        "        return wrap(() => \x7b\n",
        "            return \x7b\n",
        "                \"first\\nkey\": \"one\\ntwo\"\n",
        "            \x7d;\n",
        "        \x7d);\n",
        "    \x7d\n",
        "\x7d\n"] := by
  have hRaw : AllOneLine shelfClass.raw := by
    simp [shelfClass, Decl.raw, ClassDecl.raw, Member.raw, Param.raw, Param.typed, Binding.raw,
      annotationRaw, Ty.raw, Ty.raws, Ty.ofProperties, Ty.named, Ty.propertyRaws, Ty.indexRaws,
      Stmt.defaultRaws, Stmt.raws, Stmt.give, Stmt.raw, Expr.raw, Expr.raws, Expr.propertyRaws,
      OneLine]
  obtain ⟨-, -, -, hDecl, hNamespace⟩ := text_deeper
  refine ⟨hRaw, hDecl shelfClass 0 hRaw, hNamespace "p" [shelfClass] ?_, by decide +kernel⟩
  simpa [Decl.raws] using hRaw

end Protoscribe.TypeScript

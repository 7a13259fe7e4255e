import Mathlib.Data.List.Basic
import Protoscribe.TypeScript.Decl.Basic

set_option autoImplicit false

/-! # The index signatures of a tree

The key types of the index signatures in a tree (`indexKeys`), at any depth: in the types of
parameters, results, constants, properties and assertions, and in the types inside these. Only
object types and classes have index signatures of their own; every other tree has those of its
parts, so the lists of a compound are put together from the lists of its parts.

A key type has to be `string` or `number` for the signature to be legal (`Ty.IsKey`).
-/

namespace Protoscribe.TypeScript

/-- The named types that may be the key of an index signature. -/
def Ty.IsKey (type : Ty) : Prop := type = .named "string" ∨ type = .named "number"

/-! ## Types -/

mutual

/-- The key types of the index signatures in a type. -/
def Ty.indexKeys : Ty → List Ty
  | .reference _ arguments => Ty.allIndexKeys arguments
  | .array element => element.indexKeys
  | .union members => Ty.allIndexKeys members
  | .intersection members => Ty.allIndexKeys members
  | .record properties index => Ty.propertyIndexKeys properties ++ Ty.ownIndexKeys index
  | .literal _ => []
  | .query _ => []

def Ty.allIndexKeys : List Ty → List Ty
  | [] => []
  | type :: rest => type.indexKeys ++ Ty.allIndexKeys rest

def Ty.propertyIndexKeys : List (PropertyType Ty) → List Ty
  | [] => []
  | ⟨_, _, type⟩ :: rest => type.indexKeys ++ Ty.propertyIndexKeys rest

/-- The key of an index signature, and those inside its parts. -/
def Ty.ownIndexKeys : Option (IndexType Ty) → List Ty
  | none => []
  | some ⟨_, key, value⟩ => key :: (key.indexKeys ++ value.indexKeys)

end

@[simp] theorem Ty.allIndexKeys_eq (types : List Ty) :
    Ty.allIndexKeys types = types.flatMap Ty.indexKeys := by
  induction types with
  | nil => rfl
  | cons type types ih => rw [Ty.allIndexKeys, ih, List.flatMap_cons]

@[simp] theorem Ty.propertyIndexKeys_eq (properties : List (PropertyType Ty)) :
    Ty.propertyIndexKeys properties = properties.flatMap (·.type.indexKeys) := by
  induction properties with
  | nil => rfl
  | cons property properties ih => rw [Ty.propertyIndexKeys, ih, List.flatMap_cons]

namespace Ty

@[simp] theorem indexKeys_reference (name : String) (arguments : List Ty) :
    (Ty.reference name arguments).indexKeys = arguments.flatMap indexKeys :=
  allIndexKeys_eq arguments

@[simp] theorem indexKeys_named (name : String) : (Ty.named name).indexKeys = [] := by
  simp [named]

@[simp] theorem indexKeys_array (element : Ty) : (Ty.array element).indexKeys = element.indexKeys :=
  rfl

@[simp] theorem indexKeys_union (members : List Ty) :
    (Ty.union members).indexKeys = members.flatMap indexKeys :=
  allIndexKeys_eq members

@[simp] theorem indexKeys_intersection (members : List Ty) :
    (Ty.intersection members).indexKeys = members.flatMap indexKeys :=
  allIndexKeys_eq members

@[simp] theorem indexKeys_literal (value : String) : (Ty.literal value).indexKeys = [] := rfl

@[simp] theorem indexKeys_query (path : String) : (Ty.query path).indexKeys = [] := rfl

@[simp] theorem indexKeys_ofProperties (properties : List (PropertyType Ty)) :
    (ofProperties properties).indexKeys = properties.flatMap (·.type.indexKeys) :=
  (List.append_nil _).trans (propertyIndexKeys_eq properties)

@[simp] theorem indexKeys_indexed (parameter : String) (key value : Ty) :
    (indexed parameter key value).indexKeys = key :: (key.indexKeys ++ value.indexKeys) := rfl

end Ty

/-- The key types of the index signatures in a type, if there is one. -/
def annotationIndexKeys (type : Option Ty) : List Ty :=
  match type with
  | none => []
  | some type => type.indexKeys

@[simp] theorem annotationIndexKeys_none : annotationIndexKeys none = [] := rfl

@[simp] theorem annotationIndexKeys_some (type : Ty) :
    annotationIndexKeys (some type) = type.indexKeys := rfl

def Param.indexKeys (param : Param) : List Ty := annotationIndexKeys param.type

@[simp] theorem Param.indexKeys_typed (name : String) (type : Ty) :
    (Param.typed name type).indexKeys = type.indexKeys := rfl

@[simp] theorem Param.indexKeys_optionalTyped (name : String) (type : Ty) :
    (Param.optionalTyped name type).indexKeys = type.indexKeys := rfl

@[simp] theorem Param.indexKeys_bare (name : String) : (Param.bare name).indexKeys = [] := rfl

@[simp] theorem Param.indexKeys_pair (first second : String) :
    (Param.pair first second).indexKeys = [] := rfl

/-! ## Expressions and statements -/

mutual

/-- The key types of the index signatures in the types of an expression. -/
def Expr.indexKeys : Expr → List Ty
  | .ident _ => []
  | .thisRef => []
  | .superRef => []
  | .null => []
  | .bool _ => []
  | .number _ => []
  | .string _ => []
  | .member target _ => target.indexKeys
  | .index target position => target.indexKeys ++ position.indexKeys
  | .call callee arguments => callee.indexKeys ++ Expr.allIndexKeys arguments
  | .construct callee arguments => callee.indexKeys ++ Expr.allIndexKeys arguments
  | .array items => Expr.allIndexKeys items
  | .object properties _ => Expr.propertyIndexKeys properties
  | .arrow params result body =>
    params.flatMap Param.indexKeys ++ annotationIndexKeys result ++ body.indexKeys
  | .arrowBlock params result body =>
    params.flatMap Param.indexKeys ++ annotationIndexKeys result ++ Stmt.allIndexKeys body
  | .binary left _ right => left.indexKeys ++ right.indexKeys
  | .unary _ target => target.indexKeys
  | .typeOf target => target.indexKeys
  | .cast target type => target.indexKeys ++ type.indexKeys
  | .conditional condition positive negative =>
    condition.indexKeys ++ positive.indexKeys ++ negative.indexKeys

def Expr.allIndexKeys : List Expr → List Ty
  | [] => []
  | e :: rest => e.indexKeys ++ Expr.allIndexKeys rest

def Expr.propertyIndexKeys : List (PropertyKey × Expr) → List Ty
  | [] => []
  | (_, value) :: rest => value.indexKeys ++ Expr.propertyIndexKeys rest

/-- The key types of the index signatures in the types of a statement. -/
def Stmt.indexKeys : Stmt → List Ty
  | .expr value => value.indexKeys
  | .ret none => []
  | .ret (some value) => value.indexKeys
  | .const _ type value => annotationIndexKeys type ++ value.indexKeys
  | .declare _ => []
  | .branch condition body otherwise =>
    condition.indexKeys ++ Stmt.allIndexKeys body ++ Stmt.defaultIndexKeys otherwise
  | .forOf _ items body => items.indexKeys ++ Stmt.allIndexKeys body
  | .loop condition body => condition.indexKeys ++ Stmt.allIndexKeys body
  | .select subject cases default =>
    subject.indexKeys ++ Stmt.caseIndexKeys cases ++ Stmt.defaultIndexKeys default
  | .leave => []

def Stmt.allIndexKeys : List Stmt → List Ty
  | [] => []
  | statement :: rest => statement.indexKeys ++ Stmt.allIndexKeys rest

def Stmt.caseIndexKeys : List (Expr × List Stmt) → List Ty
  | [] => []
  | (label, body) :: rest =>
    label.indexKeys ++ Stmt.allIndexKeys body ++ Stmt.caseIndexKeys rest

def Stmt.defaultIndexKeys : Option (List Stmt) → List Ty
  | none => []
  | some body => Stmt.allIndexKeys body

end

@[simp] theorem Expr.allIndexKeys_eq (es : List Expr) :
    Expr.allIndexKeys es = es.flatMap Expr.indexKeys := by
  induction es with
  | nil => rfl
  | cons e es ih => rw [Expr.allIndexKeys, ih, List.flatMap_cons]

@[simp] theorem Expr.propertyIndexKeys_eq (properties : List (PropertyKey × Expr)) :
    Expr.propertyIndexKeys properties = properties.flatMap (·.2.indexKeys) := by
  induction properties with
  | nil => rfl
  | cons property properties ih => rw [Expr.propertyIndexKeys, ih, List.flatMap_cons]

@[simp] theorem Stmt.allIndexKeys_eq (body : List Stmt) :
    Stmt.allIndexKeys body = body.flatMap Stmt.indexKeys := by
  induction body with
  | nil => rfl
  | cons statement body ih => rw [Stmt.allIndexKeys, ih, List.flatMap_cons]

@[simp] theorem Stmt.caseIndexKeys_eq (cases : List (Expr × List Stmt)) :
    Stmt.caseIndexKeys cases =
      cases.flatMap fun (label, body) => label.indexKeys ++ body.flatMap Stmt.indexKeys := by
  induction cases with
  | nil => rfl
  | cons first cases ih =>
      rw [Stmt.caseIndexKeys, ih, List.flatMap_cons, Stmt.allIndexKeys_eq]

@[simp] theorem Stmt.defaultIndexKeys_none : Stmt.defaultIndexKeys none = [] := by
  rw [Stmt.defaultIndexKeys]

@[simp] theorem Stmt.defaultIndexKeys_some (body : List Stmt) :
    Stmt.defaultIndexKeys (some body) = body.flatMap Stmt.indexKeys := by
  rw [Stmt.defaultIndexKeys, Stmt.allIndexKeys_eq]

-- every equation of the two functions pushes the lists to the parts of a tree
attribute [simp] Expr.indexKeys Stmt.indexKeys

namespace Expr

@[simp] theorem indexKeys_method (target : Expr) (name : String) (arguments : List Expr) :
    (target.method name arguments).indexKeys =
      target.indexKeys ++ arguments.flatMap indexKeys := by
  simp [method]

@[simp] theorem indexKeys_int (value : Int) : (int value).indexKeys = [] := by simp [int]

@[simp] theorem indexKeys_ints (values : List Int) : (ints values).indexKeys = [] := by
  simp [ints]

@[simp] theorem indexKeys_assign (target value : Expr) :
    (assign target value).indexKeys = target.indexKeys ++ value.indexKeys := by
  simp [assign]

@[simp] theorem indexKeys_not (operand : Expr) : (not operand).indexKeys = operand.indexKeys := by
  simp [not]

@[simp] theorem indexKeys_and (left right : Expr) :
    (and left right).indexKeys = left.indexKeys ++ right.indexKeys := by
  simp [and]

@[simp] theorem indexKeys_undefined : undefined.indexKeys = [] := by simp [undefined]

@[simp] theorem indexKeys_lambda (params : List Param) (body : Expr) :
    (lambda params body).indexKeys = params.flatMap Param.indexKeys ++ body.indexKeys := by
  simp [lambda]

@[simp] theorem indexKeys_emptyObject : emptyObject.indexKeys = [] := by simp [emptyObject]

end Expr

namespace Stmt

@[simp] theorem indexKeys_constant (name : String) (value : Expr) :
    (constant name value).indexKeys = value.indexKeys := by
  simp [constant]

@[simp] theorem indexKeys_guarded (condition : Expr) (body : List Stmt) :
    (guarded condition body).indexKeys = condition.indexKeys ++ body.flatMap indexKeys := by
  simp [guarded]

@[simp] theorem indexKeys_give (value : Expr) : (give value).indexKeys = value.indexKeys := by
  simp [give]

end Stmt

/-! ## Declarations -/

/-- The key types of the index signatures in a member of a class. -/
def Member.indexKeys : Member → List Ty
  | .constructor params body => params.flatMap Param.indexKeys ++ body.flatMap Stmt.indexKeys
  | .getter _ body => body.flatMap Stmt.indexKeys
  | .setter _ param body => param.indexKeys ++ body.flatMap Stmt.indexKeys
  | .method _ _ _ params result body =>
    params.flatMap Param.indexKeys ++ annotationIndexKeys result ++ Stmt.defaultIndexKeys body
  | .property _ _ type value =>
    annotationIndexKeys type ++ value.toList.flatMap Expr.indexKeys
  | .index signature => Ty.ownIndexKeys (some signature)

namespace Member

@[simp] theorem indexKeys_constructor (params : List Param) (body : List Stmt) :
    (Member.constructor params body).indexKeys =
      params.flatMap Param.indexKeys ++ body.flatMap Stmt.indexKeys := rfl

@[simp] theorem indexKeys_getter (name : String) (body : List Stmt) :
    (Member.getter name body).indexKeys = body.flatMap Stmt.indexKeys := rfl

@[simp] theorem indexKeys_setter (name : String) (param : Param) (body : List Stmt) :
    (Member.setter name param body).indexKeys =
      param.indexKeys ++ body.flatMap Stmt.indexKeys := rfl

@[simp] theorem indexKeys_method (name : String) (isStatic isAbstract : Bool)
    (params : List Param) (result : Option Ty) (body : Option (List Stmt)) :
    (Member.method name isStatic isAbstract params result body).indexKeys =
      params.flatMap Param.indexKeys ++ annotationIndexKeys result ++
        Stmt.defaultIndexKeys body := rfl

@[simp] theorem indexKeys_property (name : String) (isStatic : Bool) (type : Option Ty)
    (value : Option Expr) : (Member.property name isStatic type value).indexKeys =
      annotationIndexKeys type ++ value.toList.flatMap Expr.indexKeys := rfl

@[simp] theorem indexKeys_index (parameter : String) (key value : Ty) :
    (Member.index ⟨parameter, key, value⟩).indexKeys =
      key :: (key.indexKeys ++ value.indexKeys) := by
  rw [indexKeys, Ty.ownIndexKeys]

end Member

def ClassDecl.indexKeys (decl : ClassDecl) : List Ty :=
  decl.base.toList.flatMap Expr.indexKeys ++ decl.members.flatMap Member.indexKeys

def CallSignature.indexKeys (signature : CallSignature) : List Ty :=
  signature.params.flatMap Param.indexKeys ++ signature.result.indexKeys

mutual

/-- The key types of the index signatures in a declaration. -/
def Decl.indexKeys : Decl → List Ty
  | .enumeration _ => []
  | .classDecl decl => decl.indexKeys
  | .callable decl => decl.signatures.flatMap CallSignature.indexKeys
  | .nspace _ body => indexKeysIn body

/-- The key types of the index signatures in a list of declarations. -/
def indexKeysIn : List Decl → List Ty
  | [] => []
  | decl :: rest => decl.indexKeys ++ indexKeysIn rest

end

theorem indexKeysIn_eq (decls : List Decl) : indexKeysIn decls = decls.flatMap Decl.indexKeys := by
  induction decls with
  | nil => rfl
  | cons decl decls ih => rw [indexKeysIn, ih, List.flatMap_cons]

theorem indexKeysIn_append (a b : List Decl) :
    indexKeysIn (a ++ b) = indexKeysIn a ++ indexKeysIn b := by
  rw [indexKeysIn_eq, indexKeysIn_eq, indexKeysIn_eq, List.flatMap_append]

/-- Namespaces add nothing to what stands in them. -/
theorem indexKeys_nest (body : List Decl) : ∀ (outer : String) (inner : List String),
    (Decl.nest outer inner body).indexKeys = indexKeysIn body
  | _, [] => by rw [Decl.nest, Decl.indexKeys]
  | _, next :: inner => by
      rw [Decl.nest, Decl.indexKeys, indexKeysIn, indexKeysIn, List.append_nil]
      exact indexKeys_nest body next inner

end Protoscribe.TypeScript

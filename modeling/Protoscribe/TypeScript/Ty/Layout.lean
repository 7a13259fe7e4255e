import Protoscribe.Text.Quoted
import Protoscribe.TypeScript.Layout
import Protoscribe.TypeScript.Ty.Basic

set_option autoImplicit false

/-! # The layout of types

An array binds tighter than an intersection, and an intersection tighter than a union, so a joined
element of an array and a union inside an intersection stand in parentheses. An object type is
written with one member a line.
-/

namespace Protoscribe.TypeScript

open Layout (text listed separated braced)

namespace Ty

/-- Whether the type is a union. -/
def isUnion : Ty → Bool
  | .union _ => true
  | _ => false

/-- Whether the type is a union or an intersection. -/
def isJoined : Ty → Bool
  | .union _ => true
  | .intersection _ => true
  | _ => false

end Ty

/-- The text between the name and the type of a property. -/
def propertyMark (optional : Bool) : String := if optional then "?: " else ": "

/-- An object type: one member a line, each closed by a semicolon. -/
def recordLayout : List Layout → Layout
  | [] => text "\x7b\x7d"
  | first :: rest => braced ((first :: rest).map (· ++ text ";"))

mutual

/-- The text of a type. -/
def Ty.layout : Ty → Layout
  | .reference name [] => text name
  | .reference name (first :: rest) =>
    text name ++ text "<" ++ listed (first.layout :: Ty.layouts rest) ++ text ">"
  | .array element =>
    (if element.isJoined then element.layout.parenthesized else element.layout) ++ text "[]"
  | .union members => separated " | " (Ty.layouts members)
  | .intersection members => separated " & " (Ty.intersectionLayouts members)
  | .record properties index =>
    recordLayout (Ty.propertyLayouts properties ++ Ty.indexLayouts index)
  | .literal value => text (Text.quoted value)
  | .query path => text "typeof " ++ text path

/-- The texts of several types. -/
def Ty.layouts : List Ty → List Layout
  | [] => []
  | type :: rest => type.layout :: Ty.layouts rest

/-- The members of an intersection; a union among them stands in parentheses. -/
def Ty.intersectionLayouts : List Ty → List Layout
  | [] => []
  | type :: rest =>
    (if type.isUnion then type.layout.parenthesized else type.layout)
      :: Ty.intersectionLayouts rest

/-- The properties of an object type. -/
def Ty.propertyLayouts : List (PropertyType Ty) → List Layout
  | [] => []
  | ⟨name, optional, type⟩ :: rest =>
    (text name ++ text (propertyMark optional) ++ type.layout) :: Ty.propertyLayouts rest

/-- The index signature of an object type, if it has one. -/
def Ty.indexLayouts : Option (IndexType Ty) → List Layout
  | none => []
  | some ⟨parameter, key, value⟩ =>
    [text "[" ++ text parameter ++ text ": " ++ key.layout ++ text "]: " ++ value.layout]

end

/-- The text of an index signature. -/
def IndexType.layout (signature : IndexType Ty) : Layout :=
  text "[" ++ text signature.parameter ++ text ": " ++ signature.key.layout ++ text "]: "
    ++ signature.value.layout

/-- A type after the thing it belongs to; nothing when there is none. -/
def annotation (type : Option Ty) : Layout :=
  match type with
  | none => []
  | some type => text ": " ++ type.layout

/-- The text of a type whose first line starts at depth `level`. -/
def Ty.text (type : Ty) (level : Nat) : String := type.layout.render level

end Protoscribe.TypeScript

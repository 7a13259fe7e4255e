import Mathlib.Logic.Function.Basic

set_option autoImplicit false

/-! # Values

What the emitted code computes with. An instance of a message class is the name of its type and
its storage, the values by field number; there is no identity of objects, an object that changes
is a new value in the same place. Names of enum members stand for themselves.
-/

namespace Protoscribe.Evaluation

/-! ## Scalars and values -/

/-- A value without parts. -/
inductive Scalar where
  | null
  | bool (value : Bool)
  | int (value : Int)
  /-- A number that is not written as an integer. -/
  | number (text : String)
  | string (text : String)
  | bytes (content : List UInt8)
  deriving DecidableEq

/-- A value. -/
inductive Value where
  | undefined
  | scalar (content : Scalar)
  | list (items : List Value)
  /-- A `Map`, with its entries in the order of insertion. -/
  | map (entries : List (Scalar × Value))
  /-- A plain object. -/
  | record (properties : List (String × Value))
  /-- An instance of a message class, with the populated fields by number. -/
  | instance (typeName : String) (stored : Int → Option Value)
  /-- A class or a member of an enum, by its dotted name in the module. -/
  | symbol (path : List String)
  /-- A method of a reader, taken off the reader. -/
  | readRoutine (name : String)
  | writer
  | reader
  /-- What a writer has written: records of a field number, a routine and a payload. -/
  | buffer (records : List (Int × String × Value))

/-- A record on the wire: the field number, the routine that wrote it, and the payload. -/
abbrev Record := Int × String × Value

/-- The fields of an instance: the populated ones by number. -/
abbrev Fields := Int → Option Value

namespace Scalar

/-- The text that a scalar becomes as the key of a plain object. -/
def keyText : Scalar → Option String
  | .bool value => some (toString value)
  | .int value => some (toString value)
  | .string text => some text
  | _ => none

/-- Whether two scalars are equal; numbers that are not integers are not compared. -/
def same : Scalar → Scalar → Option Bool
  | .number _, _ => none
  | _, .number _ => none
  | a, b => some (decide (a = b))

end Scalar

namespace Value

def int (value : Int) : Value := .scalar (.int value)

def bool (value : Bool) : Value := .scalar (.bool value)

def string (text : String) : Value := .scalar (.string text)

/-- The number that a text is written for. -/
def ofNumber (text : String) : Value :=
  match text.toInt? with
  | some value => .int value
  | none => .scalar (.number text)

/-- Whether the value is `undefined`. -/
def isUndefined : Value → Bool
  | .undefined => true
  | _ => false

/-- Whether the value is `undefined` or `null`. -/
def isMissing : Value → Bool
  | .undefined => true
  | .scalar .null => true
  | _ => false

theorem isUndefined_of_present {v : Value} (h : v.isMissing = false) : v.isUndefined = false := by
  cases v with
  | undefined => cases h
  | _ => rfl

/-- The value as the content of a field: nothing when it is missing. -/
def populated (value : Value) : Option Value := if value.isMissing then none else some value

/-- What `typeof` says about a value. -/
def typeOf : Value → Option String
  | .undefined => some "undefined"
  | .scalar (.bool _) => some "boolean"
  | .scalar (.int _) => some "number"
  | .scalar (.number _) => some "number"
  | .scalar (.string _) => some "string"
  | .readRoutine _ => some "function"
  | .symbol _ => none
  | _ => some "object"

/-- Whether a value counts as true. -/
def truth : Value → Option Bool
  | .undefined => some false
  | .scalar .null => some false
  | .scalar (.bool value) => some value
  | .scalar (.int value) => some (decide (value ≠ 0))
  | .scalar (.number _) => none
  | .scalar (.string text) => some (decide (text ≠ ""))
  | .symbol _ => none
  | _ => some true

/-- Equality by `===`; objects have no identity and are not compared. -/
def strictlyEqual : Value → Value → Option Bool
  | v, .undefined => some v.isUndefined
  | .undefined, _ => some false
  | .scalar a, .scalar b => a.same b
  | .scalar _, _ => some false
  | _, .scalar _ => some false
  | _, _ => none

/-- Equality by `==`, where values of different types are only compared with `null`. -/
def looselyEqual (a b : Value) : Option Bool :=
  if a.isMissing || b.isMissing then some (a.isMissing && b.isMissing)
  else if a.typeOf = b.typeOf then a.strictlyEqual b
  else none

/-- The number of UTF-16 code units of a text. -/
def units (text : String) : Nat :=
  text.toList.foldr (fun c n => (if c.toNat < 0x10000 then 1 else 2) + n) 0

theorem units_eq_zero {text : String} : units text = 0 ↔ text = "" := by
  rw [units, ← String.toList_eq_nil_iff]
  cases text.toList with
  | nil => simp
  | cons c cs =>
      rw [List.foldr_cons]
      split <;> simp

/-- The elements that a loop goes through. -/
def elements : Value → Option (List Value)
  | .list items => some items
  | .map entries => some (entries.map fun entry => .list [.scalar entry.1, entry.2])
  | _ => none

end Value

/-! ## Maps and plain objects -/

/-- The list in which `key` has the value `value`: at its place when the key is there, and else at
the end. -/
def insertEntry {κ : Type} [DecidableEq κ] (key : κ) (value : Value) :
    List (κ × Value) → List (κ × Value)
  | [] => [(key, value)]
  | entry :: rest =>
    if entry.1 = key then (key, value) :: rest else entry :: insertEntry key value rest

/-- The entry that a pair stands for. -/
def Value.entry? : Value → Option (Scalar × Value)
  | .list [.scalar key, value] => some (key, value)
  | _ => none

/-- The property that a pair stands for; its key is a text. -/
def Value.property? : Value → Option (String × Value)
  | .list [.scalar key, value] => key.keyText.map fun text => (text, value)
  | _ => none

/-- The map with the entries of a list of pairs. -/
def mapOf (pairs : List Value) : Option Value := do
  let entries ← pairs.mapM Value.entry?
  return .map (entries.foldl (fun map entry => insertEntry entry.1 entry.2 map) [])

/-- The names that every plain object inherits. -/
def inheritedNames : List String :=
  ["constructor", "__defineGetter__", "__defineSetter__", "hasOwnProperty", "__lookupGetter__",
    "__lookupSetter__", "isPrototypeOf", "propertyIsEnumerable", "toString", "valueOf",
    "__proto__", "toLocaleString"]

/-- The property of a plain object, `undefined` where it has none of the name. What a plain object
inherits is not described. -/
def propertyOf (properties : List (String × Value)) (name : String) : Option Value :=
  match properties.lookup name with
  | some value => some value
  | none => if name ∈ inheritedNames then none else some .undefined

theorem propertyOf_some {properties : List (String × Value)} {name : String} {v : Value}
    (h : properties.lookup name = some v) : propertyOf properties name = some v := by
  rw [propertyOf, h]

theorem propertyOf_none {properties : List (String × Value)} {name : String}
    (h : properties.lookup name = none) (hName : name ∉ inheritedNames) :
    propertyOf properties name = some .undefined := by
  rw [propertyOf, h]
  exact if_neg hName

/-- The plain object with the properties of a list of pairs. -/
def recordOf (pairs : List Value) : Option Value := do
  let properties ← pairs.mapM Value.property?
  return .record (properties.foldl (fun record p => insertEntry p.1 p.2 record) [])

theorem insertEntry_new {κ : Type} [DecidableEq κ] {key : κ} {entries : List (κ × Value)}
    (h : key ∉ entries.map Prod.fst) (value : Value) :
    insertEntry key value entries = entries ++ [(key, value)] := by
  induction entries with
  | nil => rfl
  | cons entry entries ih =>
      rw [List.map_cons, List.mem_cons, not_or] at h
      rw [insertEntry, if_neg (Ne.symm h.1), ih h.2, List.cons_append]

/-- Entries with distinct keys go to the end of a map, one after the other. -/
theorem foldl_insertEntry {α κ : Type} [DecidableEq κ] {key : α → κ} {value : α → Value} :
    ∀ {parts : List α} {entries : List (κ × Value)},
      (entries.map Prod.fst ++ parts.map key).Nodup →
      parts.foldl (fun map part => insertEntry (key part) (value part) map) entries =
        entries ++ parts.map fun part => (key part, value part)
  | [], _, _ => by simp
  | part :: parts, entries, h => by
      have hNew : key part ∉ entries.map Prod.fst := by
        intro hMem
        exact (List.nodup_append.1 h).2.2 _ hMem _ (by simp) rfl
      have hRest : ((entries ++ [(key part, value part)]).map Prod.fst ++ parts.map key).Nodup := by
        simpa using h
      rw [List.foldl_cons, insertEntry_new hNew, foldl_insertEntry hRest]
      simp

/-! ## Fields of an instance -/

namespace Fields

/-- The storage in which a field has a value. -/
def put (stored : Fields) (number : Int) (value : Value) : Fields :=
  Function.update stored number value.populated

/-- The storage without the fields of some numbers. -/
def clear (stored : Fields) (numbers : List Int) : Fields :=
  fun number => if number ∈ numbers then none else stored number

/-- The first populated field among some numbers, or zero. -/
def caseOf (stored : Fields) (numbers : List Int) : Int :=
  (numbers.find? fun number => (stored number).isSome).getD 0

variable {stored : Fields} {number : Int} {v w : Value}

@[simp] theorem put_put : (stored.put number v).put number w = stored.put number w := by
  simp [put]

theorem put_same (h : stored number = some v) (present : v.isMissing = false) :
    stored.put number v = stored := by
  rw [put, Value.populated, present, ← h]
  exact Function.update_eq_self _ _

theorem put_number (present : v.isMissing = false) : stored.put number v number = some v := by
  simp [put, Value.populated, present]

theorem caseOf_congr {s t : Fields} {numbers : List Int}
    (h : ∀ n ∈ numbers, (s n).isSome = (t n).isSome) : s.caseOf numbers = t.caseOf numbers := by
  rw [caseOf, caseOf]
  congr 1
  induction numbers with
  | nil => rfl
  | cons n numbers ih =>
      obtain ⟨hFirst, hRest⟩ := List.forall_mem_cons.1 h
      rw [List.find?_cons, List.find?_cons, hFirst, ih hRest]

end Fields

end Protoscribe.Evaluation

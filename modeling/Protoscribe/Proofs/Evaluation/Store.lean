import Protoscribe.Proofs.Evaluation.Value
import Protoscribe.TypeScript.Expr.Basic

set_option autoImplicit false

/-! # The state of a computation

A running member of a class has a frame: the object it runs on, what the names of its module mean,
and its variables, the latest first. A variable exists before it has a value, and hides what its
name means in the module from then on. All frames share one writer and one reader. A computation
may fail, which stands for an exception as well as for anything that is not described here.
-/

namespace Protoscribe.Evaluation

open TypeScript

/-- What a dotted path means where no variable begins it. -/
inductive Meaning where
  /-- The class of a message type. -/
  | message (typeName : String)
  /-- An enum with some members. -/
  | enumeration (members : List String)
  /-- What the language has under this path; the module neither declares nor imports its first
  name. -/
  | global
  /-- Anything else. -/
  | other
  deriving DecidableEq

/-- What the names of a module mean. -/
structure Names where
  /-- The identifier of the message runtime. -/
  runtime : String
  reach : List String → Meaning

/-- Whether a dotted path has a value: it is the path of a class, or of a member of an enum. -/
def Names.hasValue (names : Names) (path : List String) : Bool :=
  match names.reach path, names.reach path.dropLast with
  | .message _, _ => true
  | .other, .enumeration members => path.getLast?.any (· ∈ members)
  | _, _ => false

/-- The value of a dotted path. -/
def Names.value? (names : Names) (path : List String) : Option Value :=
  if names.hasValue path then some (.symbol path) else none

/-- What a member of a class works on while it runs. A variable without a value is declared and not
initialized. -/
structure Frame where
  self : Value
  names : Names
  locals : List (String × Option Value)

/-- The state of a computation. -/
structure Store where
  frame : Frame
  /-- What the writer has written. -/
  output : List Record
  /-- What the reader has not read. -/
  input : List Record
  /-- The record that the reader stands at. -/
  current : Option Record

/-- A computation that changes the state and may fail. -/
abbrev M := StateT Store Option

section Steps

/-! Runs over any kind of state obey the same laws. -/

variable {S α β : Type}

@[simp] theorem pure_run (a : α) (σ : S) : (pure a : StateT S Option α) σ = some (a, σ) := rfl

@[simp] theorem failure_run (σ : S) : (failure : StateT S Option α) σ = none := rfl

@[simp] theorem bind_run (x : StateT S Option α) (f : α → StateT S Option β) (σ : S) :
    (x >>= f) σ = (x σ).bind fun result => f result.1 result.2 := rfl

@[simp] theorem map_run (f : α → β) (x : StateT S Option α) (σ : S) :
    (f <$> x) σ = (x σ).map fun result => (f result.1, result.2) := by
  rw [map_eq_pure_bind, bind_run, Option.map_eq_bind]
  rfl

@[simp] theorem get_run (σ : S) : (get : StateT S Option S) σ = some (σ, σ) := rfl

@[simp] theorem modify_run (f : S → S) (σ : S) :
    (modify f : StateT S Option PUnit) σ = some (⟨⟩, f σ) := rfl

end Steps

/-- The value that an operation gives, if it gives one. -/
def lift {α : Type} (value : Option α) : M α := fun σ => value.map fun a => (a, σ)

@[simp] theorem lift_some {α : Type} (a : α) (σ : Store) : lift (some a) σ = some (a, σ) := rfl

@[simp] theorem lift_none {α : Type} (σ : Store) : lift (none : Option α) σ = none := rfl

/-! ## Variables -/

namespace Store

/-- The state with other variables. -/
def withLocals (σ : Store) (locals : List (String × Option Value)) : Store :=
  { σ with frame := { σ.frame with locals := locals } }

/-- The state with another object to run on. -/
def withSelf (σ : Store) (self : Value) : Store :=
  { σ with frame := { σ.frame with self := self } }

end Store

/-- The variables after an assignment to one that has a value. -/
def afterAssignment (name : String) (value : Value) :
    List (String × Option Value) → Option (List (String × Option Value))
  | [] => none
  | (other, old) :: rest =>
    if other = name then old.map fun _ => (other, some value) :: rest
    else (afterAssignment name value rest).map ((other, old) :: ·)

/-- Declares a variable. -/
def declare (name : String) (value : Value) : M PUnit :=
  modify fun σ => σ.withLocals ((name, some value) :: σ.frame.locals)

/-- The names that a binding binds. -/
def boundNames : Binding → List String
  | .name name => [name]
  | .elements names => names

/-- Declares the variables of a binding, without values. -/
def reserve (binding : Binding) : M PUnit :=
  modify fun σ => σ.withLocals ((boundNames binding).map (·, none) ++ σ.frame.locals)

/-- Assigns to a variable. -/
def assignLocal (name : String) (value : Value) : M PUnit := do
  let locals ← lift (afterAssignment name value (← get).frame.locals)
  modify fun σ => σ.withLocals locals

/-- Binds a value: to a name, or its elements to several names. -/
def bindTo (binding : Binding) (value : Value) : M PUnit :=
  match binding, value with
  | .name name, value => declare name value
  | .elements [first, second], .list [a, b] => do
    declare first a
    declare second b
  | _, _ => failure

/-- Binds parameters to arguments. A missing argument is `undefined`, and further arguments are
left out. -/
def bindParams : List Param → List Value → M PUnit
  | [], _ => pure ⟨⟩
  | param :: params, [] => do
    bindTo param.binding .undefined
    bindParams params []
  | param :: params, value :: values => do
    bindTo param.binding value
    bindParams params values

/-- A computation in a block of its own: the variables declared in it end with it. -/
def inBlock {α : Type} (body : M α) : M α := do
  let before ← get
  let result ← body
  modify fun σ =>
    σ.withLocals (σ.frame.locals.drop (σ.frame.locals.length - before.frame.locals.length))
  return result

/-- A computation in a frame of its own, with the object it leaves behind. -/
def inFrame (frame : Frame) (body : M Value) : M (Value × Value) := do
  let before ← get
  modify fun σ => { σ with frame := frame }
  let result ← body
  let after ← get
  modify fun σ => { σ with frame := before.frame }
  return (result, after.frame.self)

/-! ## Holders of objects -/

/-- A place that holds an object: the object that a member runs on, or a variable. -/
inductive Holder where
  | self
  | variable (name : String)

/-- The holder that an expression names. -/
def holder? : Expr → Option Holder
  | .thisRef => some .self
  | .ident name => some (.variable name)
  | _ => none

/-- The object in a holder. -/
def Holder.read : Holder → M Value
  | .self => return (← get).frame.self
  | .variable name => do lift ((← get).frame.locals.lookup name).join

/-- Puts an object in a holder. -/
def Holder.write (value : Value) : Holder → M PUnit
  | .self => modify (·.withSelf value)
  | .variable name => assignLocal name value

end Protoscribe.Evaluation

import Protoscribe.Proofs.Evaluation.Expr
import Protoscribe.Proofs.Service.Places

set_option autoImplicit false

/-! # Running a call of a client

The function of a call gets objects from its caller, may make objects, functions and a promise of
its own, and calls the generic client. What counts is which calls it makes and how it settles its
promise, so a state keeps both in order (`CallState`); the objects of the caller are opaque.

The part of the language in the bodies of calls has no loops and calls no function but those of a
promise, so running is by recursion on the tree. A function that is made keeps the values that its
variables have then; the bodies assign nothing afterwards.
-/

namespace Protoscribe

open TypeScript Evaluation

/-- How a promise is settled. -/
inductive Outcome where
  | resolved
  | rejected

/-- A value in a running call. -/
inductive CallValue (α : Type) where
  | undefined
  | null
  | bool (value : Bool)
  /-- An object of the caller. -/
  | given (object : α)
  /-- A new object of the class with a dotted name. -/
  | made (path : List String)
  /-- A new object without properties. -/
  | empty
  /-- The function that settles the promise in one way. -/
  | settler (outcome : Outcome)
  /-- A function, with the variables that it sees. -/
  | closure (seen : List (String × CallValue α)) (params : List Param) (body : List Stmt)
  | promise
  /-- What the generic client gives. -/
  | reply

/-- The state of a running call. -/
structure CallState (α : Type) where
  locals : List (String × CallValue α)
  /-- The methods of the generic client that were called, with their arguments. -/
  forwarded : List (String × List (CallValue α))
  /-- How the promise was settled, and with what. -/
  settled : List (Outcome × CallValue α)

/-- A run may get stuck, and changes the state. -/
abbrev CallM (α : Type) := StateT (CallState α) Option

variable {α : Type}

/-- Whether a value counts as true; every object does. -/
def CallValue.truth : CallValue α → Bool
  | .undefined => false
  | .null => false
  | .bool value => value
  | _ => true

/-- The variables with a new value for one of them. -/
def assigned (name : String) (value : CallValue α) :
    List (String × CallValue α) → Option (List (String × CallValue α))
  | [] => none
  | (other, old) :: rest =>
    if other = name then some ((other, value) :: rest)
    else (assigned name value rest).map ((other, old) :: ·)

/-- The variables of the parameters of a function; a missing argument is undefined, and arguments
without a parameter are dropped. -/
def parameterValues : List Param → List (CallValue α) → Option (List (String × CallValue α))
  | [], _ => some []
  | p :: ps, values =>
    match p.binding with
    | .name name => (parameterValues ps values.tail).map ((name, values.headD .undefined) :: ·)
    | .elements _ => none

namespace CallM

/-- The value of a variable. -/
def read (name : String) : CallM α (CallValue α) := fun σ =>
  (σ.locals.lookup name).map (·, σ)

theorem read_run {name : String} {value : CallValue α} {σ : CallState α}
    (h : σ.locals.lookup name = some value) : read name σ = some (value, σ) := by
  rw [read, h]
  rfl

def write (name : String) (value : CallValue α) : CallM α Unit := fun σ =>
  (assigned name value σ.locals).map fun locals => (⟨⟩, { σ with locals })

/-- A new object of a class that the module names. -/
def construct (callee : Expr) : CallM α (CallValue α) := fun σ =>
  match path? callee with
  | some (first :: rest) =>
    if (σ.locals.lookup first).isNone then some (.made (first :: rest), σ) else none
  | _ => none

/-- A call of a method of the generic client. -/
def forward (name : String) (arguments : List (CallValue α)) : CallM α (CallValue α) := fun σ =>
  some (.reply, { σ with forwarded := σ.forwarded ++ [(name, arguments)] })

/-- A call of a function that settles the promise. -/
def settle (function argument : CallValue α) : CallM α (CallValue α) := fun σ =>
  match function with
  | .settler outcome => some (.undefined, { σ with settled := σ.settled ++ [(outcome, argument)] })
  | _ => none

/-- Runs with the parameters of a function as further variables. -/
def within {β : Type} (params : List Param) (arguments : List (CallValue α)) (body : CallM α β) :
    CallM α β := fun σ => do
  let own ← parameterValues params arguments
  let (result, τ) ← body { σ with locals := own ++ σ.locals }
  return (result, { τ with locals := τ.locals.drop own.length })

end CallM

mutual

/-- The value of an expression. -/
def evalCall : Expr → CallM α (CallValue α)
  | .ident name => CallM.read name
  | .unary operator operand =>
    if operator = "!" then do return .bool !(← evalCall operand).truth else failure
  | .binary (.ident name) operator right =>
    if operator = "=" then do
      let value ← evalCall right
      CallM.write name value
      return value
    else failure
  | .object [] _ => return .empty
  | .arrowBlock params _ body => do return .closure (← get).locals params body
  | .construct (.ident name) [.arrow params _ body] =>
    -- a promise runs its function at once
    if name = "Promise" then do
      let _ ← CallM.within params [.settler .resolved, .settler .rejected] (evalCall body)
      return .promise
    else failure
  | .construct callee [] => CallM.construct callee
  | .call (.member .superRef name) arguments => do CallM.forward name (← evalCallArgs arguments)
  | .call (.ident name) [argument] => do
    let function ← CallM.read name
    CallM.settle function (← evalCall argument)
  | _ => failure

/-- The values of arguments. -/
def evalCallArgs : List Expr → CallM α (List (CallValue α))
  | [] => return []
  | e :: es => do
    let value ← evalCall e
    return value :: (← evalCallArgs es)

end

mutual

/-- Runs a statement; gives the value that it returns, if it returns one. -/
def execCall : Stmt → CallM α (Option (CallValue α))
  | .expr e => do
    let _ ← evalCall e
    return none
  | .ret (some e) => do return some (← evalCall e)
  | .branch condition body none => do
    if (← evalCall condition).truth then execCalls body else return none
  | .branch condition body (some other) => do
    if (← evalCall condition).truth then execCalls body else execCalls other
  | _ => failure

/-- Runs statements one after the other, until one returns. -/
def execCalls : List Stmt → CallM α (Option (CallValue α))
  | [] => return none
  | s :: rest => do
    match ← execCall s with
    | none => execCalls rest
    | some value => return some value

end

/-- What a function with the given variables in sight does, and what it returns. -/
def runFunction (seen : List (String × CallValue α)) (params : List Param) (body : List Stmt)
    (arguments : List (CallValue α)) : Option (CallValue α × CallState α) := do
  let own ← parameterValues params arguments
  let (result, σ) ← execCalls body ⟨own ++ seen, [], []⟩
  return (result.getD .undefined, σ)

/-- What a call of a client does with its arguments, and what it gives. -/
def ClientCall.run (call : ClientCall) (arguments : List (CallValue α)) :
    Option (CallValue α × CallState α) :=
  runFunction [] call.params call.body arguments

/-- What a function does when it is called later. -/
def CallValue.run (function : CallValue α) (arguments : List (CallValue α)) :
    Option (CallState α) :=
  match function with
  | .closure seen params body => (runFunction seen params body arguments).map Prod.snd
  | _ => none

end Protoscribe

import Protoscribe.Proofs.Evaluation.Expr
import Protoscribe.Proofs.Evaluation.Sites

set_option autoImplicit false

/-! # Running the classes of messages

The classes of a program answer invocations (`Program.answer`); with the depth of the calls bounded
this gives `Program.invoke`. A static method answers only where it is still the one of its class:
what the namespace of a class declares takes the place of a static member of the same name.
-/

namespace Protoscribe.Evaluation

open TypeScript

/-! ## Members of a class -/

/-- Whether a member defines a name, on the class or on its instances. A method without a body
defines nothing. -/
def defines (onClass : Bool) (name : String) : Member → Bool
  | .constructor .. => !onClass && name = "constructor"
  | .getter other _ => !onClass && other = name
  | .setter other _ _ => !onClass && other = name
  | .method other isStatic _ _ _ (some _) => isStatic = onClass && other = name
  | .method _ _ _ _ _ none => false
  | .property other isStatic _ _ => isStatic = onClass && other = name
  | .index _ => false

/-- Whether a member is a getter or a setter. -/
def isAccessor : Member → Bool
  | .getter .. => true
  | .setter .. => true
  | _ => false

def getterBody? : Member → Option (List Stmt)
  | .getter _ body => some body
  | _ => none

def setterBody? : Member → Option (Param × List Stmt)
  | .setter _ param body => some (param, body)
  | _ => none

def methodBody? : Member → Option (List Param × List Stmt)
  | .method _ _ _ params _ body => body.map (params, ·)
  | _ => none

def constructorBody? : Member → Option (List Param × List Stmt)
  | .constructor params body => some (params, body)
  | _ => none

/-- The last getter of a name that only accessors define. -/
def getter? (members : List Member) (name : String) : Option (List Stmt) :=
  let found := members.filter (defines false name)
  if found.all isAccessor then (found.filterMap getterBody?).getLast? else none

/-- The last setter of a name that only accessors define. -/
def setter? (members : List Member) (name : String) : Option (Param × List Stmt) :=
  let found := members.filter (defines false name)
  if found.all isAccessor then (found.filterMap setterBody?).getLast? else none

/-- The last definition of a name, if it is a method. -/
def method? (members : List Member) (onClass : Bool) (name : String) :
    Option (List Param × List Stmt) :=
  (members.filter (defines onClass name)).getLast?.bind methodBody?

/-- The number of the field that an expression reads. -/
def fieldRead? : Expr → Option Int
  | .cast operand _ => fieldRead? operand
  | .call (.member _ "getField") [.thisRef, .number text] => text.toInt?
  | _ => none

/-- The number of the field that the body of a getter reads. -/
def slotOf? : List Stmt → Option Int
  | [.ret (some value)] => fieldRead? value
  | _ => none

/-! ## Running members -/

section Running

variable (fuel : Nat) (call : Invocation → M Value) (names : Names)

/-- What a body returns. -/
def bodyValue (body : List Stmt) : M Value := do
  match ← execAll fuel call body with
  | .give value => return value
  | _ => return .undefined

/-- The result of a body on an object, and the object afterwards. -/
def runBody (self : Value) (params : List Param) (arguments : List Value) (body : List Stmt) :
    M (Value × Value) :=
  inFrame ⟨self, names, []⟩ do
    bindParams params arguments
    bodyValue fuel call body

/-- What a getter gives. -/
def runGetter (self : Value) (body : List Stmt) : M Value := do
  return (← runBody fuel call names self [] [] body).1

/-- The object that a setter leaves behind. -/
def runSetter (self : Value) (param : Param) (value : Value) (body : List Stmt) : M Value := do
  return (← runBody fuel call names self [param] [value] body).2

end Running

/-! ## Invocations -/

namespace Program

variable (P : Program)

/-- A static method of the class of a type. -/
def static? (typeName name : String) : Option (List Param × List Stmt) :=
  if P.overwrites typeName name then none else (P.members? typeName).bind (method? · true name)

/-- How the classes answer, when members are called by `call`. -/
def answer (fuel : Nat) (call : Invocation → M Value) : Invocation → M Value
  | .get (.instance typeName stored) name => do
    let names ← lift (P.names? typeName)
    let body ← lift ((P.members? typeName).bind (getter? · name))
    runGetter fuel call names (.instance typeName stored) body
  | .set (.instance typeName stored) name value => do
    let names ← lift (P.names? typeName)
    let (param, body) ← lift ((P.members? typeName).bind (setter? · name))
    runSetter fuel call names (.instance typeName stored) param value body
  | .slot (.instance typeName _) name => do
    let body ← lift ((P.members? typeName).bind (getter? · name))
    return .int (← lift (slotOf? body))
  | .method (.instance typeName stored) name arguments => do
    let names ← lift (P.names? typeName)
    let (params, body) ← lift ((P.members? typeName).bind (method? · false name))
    return (← runBody fuel call names (.instance typeName stored) params arguments body).1
  | .static typeName name arguments => do
    let names ← lift (P.names? typeName)
    let (params, body) ← lift (P.static? typeName name)
    return (← runBody fuel call names .undefined params arguments body).1
  | .construct typeName arguments => do
    let names ← lift (P.names? typeName)
    let (params, body) ← lift ((P.members? typeName).bind (·.findSome? constructorBody?))
    return (← runBody fuel call names (.instance typeName fun _ => none) params arguments body).2
  | _ => failure

/-- How the classes answer within a number of nested calls. -/
def invoke : Nat → Invocation → M Value
  | 0, _ => failure
  | fuel + 1, invocation => P.answer fuel (invoke fuel) invocation

end Program

/-- The state before anything runs. -/
def Store.empty : Store := ⟨⟨.undefined, ⟨"", fun _ => .other⟩, []⟩, [], [], none⟩

end Protoscribe.Evaluation

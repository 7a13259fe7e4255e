import Mathlib.Data.List.Basic
import Protoscribe.Proofs.Evaluation.Store
import Protoscribe.Text.Affix

set_option autoImplicit false

/-! # The message runtime

What the emitted code assumes of the runtime. A function of the runtime's message class works on
the storage of an object (`Function`). A writer appends records; a reader stands at one record
after the other and gives back the payload of a record to the routine of the name that wrote it.
-/

namespace Protoscribe.Evaluation

open TypeScript

/-! ## Functions on storage -/

/-- A function on the storage of an object: it gives the storage afterwards and a result. -/
abbrev Function := Fields → List Value → Option (Fields × Value)

/-- The integers that a value lists. -/
def intsOf : Value → Option (List Int)
  | .list items => items.mapM fun item =>
    match item with
    | .scalar (.int value) => some value
    | _ => none
  | _ => none

namespace Runtime

/-- `getField(this, n)`: the value of a field. -/
def getField : Function
  | stored, [.scalar (.int number)] => some (stored, (stored number).getD .undefined)
  | _, _ => none

/-- `getWrapperField(this, c, n)` and its kin: the value of a field that holds instances of a
class. -/
def getWrapperField : Function
  | stored, [.symbol _, number] => getField stored [number]
  | _, _ => none

/-- `getFieldWithDefault(this, n, d)`: the value of a field, or the default. -/
def getFieldWithDefault : Function
  | stored, [.scalar (.int number), value] => some (stored, (stored number).getD value)
  | _, _ => none

/-- `setField(this, n, v)` and its kin: the field has the value, every other field is kept. -/
def setField : Function
  | stored, [.scalar (.int number), value] => some (stored.put number value, .undefined)
  | _, _ => none

/-- `setOneofField(this, n, ns, v)` and its kin: the field has the value, and every other field
with one of the numbers is cleared. -/
def setOneofField : Function
  | stored, [.scalar (.int number), numbers, value] => do
    let numbers ← intsOf numbers
    return ((stored.clear numbers).put number value, .undefined)
  | _, _ => none

/-- `computeOneofCase(this, ns)`: the populated number, or zero. -/
def computeOneofCase : Function
  | stored, [numbers] => do
    let numbers ← intsOf numbers
    return (stored, .int (stored.caseOf numbers))
  | _, _ => none

/-- `addToRepeatedField(this, n, v)`: one more element of a list. -/
def addToRepeatedField : Function
  | stored, [.scalar (.int number), value] =>
    match stored number with
    | some (.list items) => some (stored.put number (.list (items ++ [value])), .undefined)
    | _ => none
  | _, _ => none

/-- `addToRepeatedWrapperField(this, n, v, c)`: one more instance of a class in a list. -/
def addToRepeatedWrapperField : Function
  | stored, [number, value, .symbol _] => addToRepeatedField stored [number, value]
  | _, _ => none

/-- `initialize(this, data, 0, -1, lists, oneofs)` without data: every list starts empty, and
nothing else is populated. -/
def setUp : Function
  | _, [.list [], _, _, lists, _] => do
    let lists ← intsOf lists
    return (fun number => if number ∈ lists then some (.list []) else none, .undefined)
  | _, _ => none

/-- The functions of the runtime's message class. -/
def functions : List (String × Function) :=
  [("getField", getField), ("getWrapperField", getWrapperField),
    ("getRepeatedWrapperField", getWrapperField), ("getFieldWithDefault", getFieldWithDefault),
    ("setField", setField), ("setWrapperField", setField), ("setRepeatedWrapperField", setField),
    ("setOneofField", setOneofField), ("setOneofWrapperField", setOneofField),
    ("computeOneofCase", computeOneofCase), ("addToRepeatedField", addToRepeatedField),
    ("addToRepeatedWrapperField", addToRepeatedWrapperField), ("initialize", setUp)]

end Runtime

/-! ## Arguments -/

/-- An argument of a call: as it is written, its value, and what happens when it is called itself.
Functions only occur as arguments and only run while the call lasts. -/
structure Arg where
  expr : Expr
  value : M Value
  run : List Value → M Value

/-- The values of some arguments, from left to right. -/
def values : List Arg → M (List Value)
  | [] => return []
  | arg :: args => do
    let first ← arg.value
    let others ← values args
    return first :: others

/-- A call of a function of the runtime's message class on the object in a holder. -/
def messageCall (name : String) (args : List Arg) : M Value :=
  match args with
  | [] => failure
  | target :: args => do
    let function ← lift (Runtime.functions.lookup name)
    let holder ← lift (holder? target.expr)
    let args ← values args
    match ← holder.read with
    | .instance typeName stored => do
      let (stored, result) ← lift (function stored args)
      holder.write (.instance typeName stored)
      return result
    | _ => failure

/-! ## Writing -/

/-- Appends a record. -/
def append (record : Record) : M PUnit :=
  modify fun σ => { σ with output := σ.output ++ [record] }

/-- Appends one record that holds what `body` writes. -/
def appendNested (number : Int) (body : M Value) : M PUnit := do
  let before ← get
  modify fun σ => { σ with output := [] }
  let _ ← body
  let after ← get
  modify fun σ => { σ with output := before.output ++ [(number, "Message", .buffer after.output)] }

/-- Appends one record for each element. -/
def appendEach (number : Int) (routine : String) : List Value → M PUnit
  | [] => pure ⟨⟩
  | item :: items => do
    append (number, routine, item)
    appendEach number routine items

/-- Appends one record for each message. -/
def appendMessages (number : Int) (write : Value → M Value) : List Value → M PUnit
  | [] => pure ⟨⟩
  | item :: items => do
    appendNested number (write item)
    appendMessages number write items

/-- Appends what a routine of the writer appends for a value that is not missing. -/
def appendValue (number : Int) (routine : String) (value : Value) : M PUnit :=
  match Text.afterStart? "Repeated" routine, Text.afterStart? "Packed" routine, value with
  | some routine, _, .list items => appendEach number routine items
  | none, some _, .list [] => pure ⟨⟩
  | none, _, value => append (number, routine, value)
  | _, _, _ => failure

/-- A call of a method of the writer. -/
def writerCall (name : String) (args : List Arg) : M Value :=
  match Text.afterStart? "write" name, args with
  | some routine, [number, value] => do
    match ← number.value, ← value.value with
    | .scalar (.int number), value =>
      if value.isMissing then return .undefined
      else do
        appendValue number routine value
        return .undefined
    | _, _ => failure
  | some routine, [number, value, write] => do
    match ← number.value, ← value.value with
    | .scalar (.int number), value =>
      if value.isMissing then return .undefined
      else if routine = "Message" then do
        appendNested number (write.run [value, .writer])
        return .undefined
      else
        match value with
        | .list items =>
          if routine = "RepeatedMessage" then do
            appendMessages number (fun item => write.run [item, .writer]) items
            return .undefined
          else failure
        | _ => failure
    | _, _ => failure
  | _, _ =>
    if name = "getResultBuffer" then return .buffer (← get).output else failure

/-! ## Reading -/

/-- The payload of the current record, for the routine of the name that wrote it. -/
def readValue (routine : String) : M Value := do
  match (← get).current with
  | some (_, written, payload) => if written = routine then return payload else failure
  | none => failure

/-- Goes on to the next record, if there is one. -/
def nextRecord : M Value := do
  match (← get).input with
  | [] => do
    modify fun σ => { σ with current := none }
    return .bool false
  | record :: rest => do
    modify fun σ => { σ with current := some record, input := rest }
    return .bool true

/-- A computation that reads the records inside the current record. -/
def readNested (body : M Value) : M Value := do
  let before ← get
  match before.current with
  | some (_, "Message", .buffer records) => do
    modify fun σ => { σ with input := records, current := none }
    let _ ← body
    modify fun σ => { σ with input := before.input, current := before.current }
    return .undefined
  | _ => failure

/-- A call of a method of the reader. -/
def readerCall (name : String) (args : List Arg) : M Value :=
  if name = "nextField" then nextRecord
  else if name = "isEndGroup" then return .bool false
  else if name = "skipField" then return .undefined
  else if name = "getFieldNumber" then do
    match (← get).current with
    | some (number, _, _) => return .int number
    | none => failure
  else
    match Text.afterStart? "read" name, args with
    | some routine, [] => readValue routine
    | some "Message", [target, body] => do
      let value ← target.value
      readNested (body.run [value, .reader])
    | _, _ => failure

/-- The key and the value of a map entry, read from the records of the entry. -/
def readEntry (readKey readValue : M Value) (key value : Value) :
    List Record → M (Value × Value)
  | [] => return (key, value)
  | record :: rest => do
    modify fun σ => { σ with input := rest, current := some record }
    if record.1 = 1 then do
      let key ← readKey
      readEntry readKey readValue key value rest
    else if record.1 = 2 then do
      let value ← readValue
      readEntry readKey readValue key value rest
    else readEntry readKey readValue key value rest

end Protoscribe.Evaluation

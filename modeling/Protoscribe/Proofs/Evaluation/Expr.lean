import Protoscribe.Proofs.Evaluation.Runtime

set_option autoImplicit false

/-! # Running expressions and statements

`eval` gives the value of an expression and `exec` runs a statement. What happens inside a class is
left open: a member of an object is a call `call` of an `Invocation`, and a loop runs at most
`fuel` times.

A dotted path is looked up where it stands. A variable that begins it hides everything else, already
while the value of the variable is computed (`Frame.path?`, `exec`); then the names of the module
decide what it means. The identifier of the runtime needs no such look-up, because no variable in
emitted code has its name.
-/

namespace Protoscribe.Evaluation

open TypeScript

/-- What may be asked of a class. -/
inductive Invocation where
  /-- The value of a getter. -/
  | get (object : Value) (name : String)
  /-- The object after a setter. -/
  | set (object : Value) (name : String) (value : Value)
  /-- The number of the field that a getter reads. -/
  | slot (object : Value) (name : String)
  /-- The result of a method. -/
  | method (object : Value) (name : String) (arguments : List Value)
  /-- The result of a static method. -/
  | static (typeName name : String) (arguments : List Value)
  /-- A new instance. -/
  | construct (typeName : String) (arguments : List Value)

/-- How a statement ends: the next one follows, a loop or a choice is left, or a value is
returned. -/
inductive Flow where
  | next
  | leave
  | give (value : Value)

/-- The dotted path that an expression is. -/
def path? : Expr → Option (List String)
  | .ident name => some [name]
  | .member target name => (path? target).map (· ++ [name])
  | _ => none

/-- The member of the runtime that an expression names. -/
def Frame.runtime? (frame : Frame) (e : Expr) : Option String :=
  match Evaluation.path? e with
  | some [first, name] => if first = frame.names.runtime then some name else none
  | _ => none

/-- The path in the module that an expression is; a path that begins with a variable is none. -/
def Frame.path? (frame : Frame) (e : Expr) : Option (List String) :=
  match Evaluation.path? e with
  | some (first :: rest) =>
    if (frame.locals.lookup first).isNone then some (first :: rest) else none
  | _ => none

section Calls

variable (call : Invocation → M Value)

/-- The value of a name: of a variable, which has to be initialized, or else of the module. -/
def nameValue (name : String) : M Value := do
  let frame := (← get).frame
  match frame.locals.lookup name with
  | some value => lift value
  | none =>
    if name = "undefined" && frame.names.reach ["undefined"] = .global then return .undefined
    else lift (frame.names.value? [name])

/-- The value of a member. -/
def memberValue (object : Value) (name : String) : M Value :=
  match object with
  | .instance .. => call (.get object name)
  | .record properties => lift (propertyOf properties name)
  | .list items => if name = "length" then return .int items.length else failure
  | .map entries => if name = "size" then return .int entries.length else failure
  | .scalar (.string text) =>
    if name = "length" then return .int (Value.units text) else failure
  | _ => failure

/-- The object after an assignment to one of its members. -/
def memberAssigned (object : Value) (name : String) (value : Value) : M Value :=
  match object with
  | .instance .. => call (.set object name value)
  | .record properties => return .record (insertEntry name value properties)
  | _ => failure

/-- An assignment. -/
def assign (target : Expr) (value : Value) : M PUnit :=
  match target with
  | .ident name => assignLocal name value
  | .member target name => do
    let holder ← lift (holder? target)
    holder.write (← memberAssigned call (← holder.read) name value)
  | _ => failure

/-- The element of a list or a plain object. -/
def elementValue (object index : Value) : M Value :=
  match object, index with
  | .list items, .scalar (.int (.ofNat position)) => return items.getD position .undefined
  | .record properties, .scalar key => do
    let text ← lift key.keyText
    lift (propertyOf properties text)
  | _, _ => failure

/-- A call of a function of the runtime's map class. It changes the map in the field that its first
argument reads. -/
def mapCall (name : String) (args : List Arg) : M Value :=
  match name, args with
  | "deserializeBinary", [⟨.cast (.member target field) _, value, _⟩, _, key, content] => do
    let holder ← lift (holder? target)
    match ← value, ← holder.read with
    | .map entries, .instance typeName stored => do
      let number ← call (.slot (.instance typeName stored) field)
      let (key, content) ← readEntry (key.run [.reader]) (content.run [.reader])
        .undefined .undefined (← get).input
      match number, key with
      | .scalar (.int number), .scalar key => do
        holder.write (.instance typeName
          (Fields.put stored number (.map (insertEntry key content entries))))
        return .undefined
      | _, _ => failure
    | _, _ => failure
  | _, _ => failure

/-- A call of a function that every module knows. -/
def globalCall (owner name : String) (args : List Value) : Option Value :=
  match args with
  | [.list items] =>
    if owner = "Array" && name = "isArray" then some (.bool true)
    else if owner = "Array" && name = "from" then some (.list items)
    else if owner = "Object" && name = "fromEntries" then recordOf items
    else none
  | [.map entries] =>
    if owner = "Array" && name = "isArray" then some (.bool false)
    else if owner = "Array" && name = "from" then (Value.map entries).elements.map .list
    else if owner = "Object" && name = "fromEntries" then
      (Value.map entries).elements.bind recordOf
    else none
  | [.record properties] =>
    if owner = "Array" && name = "isArray" then some (.bool false)
    else if owner = "Object" && name = "entries" then
      some (.list (properties.map fun p => .list [.string p.1, p.2]))
    else none
  | [_] => if owner = "Array" && name = "isArray" then some (.bool false) else none
  | _ => none

/-- The list of what a function gives for each element. -/
def mapItems (f : Value → M Value) : List Value → M (List Value)
  | [] => return []
  | item :: items => do
    let first ← f item
    let others ← mapItems f items
    return first :: others

/-- A call of a method of a value. -/
def methodCall (object : Value) (name : String) (args : List Arg) : M Value :=
  match object with
  | .writer => writerCall name args
  | .reader => readerCall name args
  | .list items =>
    match name, args with
    | "map", [f] => do return .list (← mapItems (fun item => f.run [item]) items)
    | _, _ => failure
  | .instance .. => do call (.method object name (← values args))
  | _ => failure

/-- A call of a member: of the runtime, of a value, or of what a path of the module means. -/
def memberCall (target : Expr) (object : M Value) (name : String) (args : List Arg) : M Value := do
  let frame := (← get).frame
  match frame.runtime? target, frame.path? target with
  | some "Message", _ => messageCall name args
  | some "Map", _ => mapCall call name args
  | some _, _ => failure
  | none, none => do methodCall call (← object) name args
  | none, some path =>
    match frame.names.reach path, path with
    | .message typeName, _ => do call (.static typeName name (← values args))
    | .global, [owner] => do lift (globalCall owner name (← values args))
    | _, _ => failure

/-- The number that a value is turned into. -/
def toNumber : Value → Option Value
  | .scalar (.int value) => some (.int value)
  | .scalar (.string text) => text.toInt?.map .int
  | _ => none

/-- A call of a global function. -/
def functionCall (name : String) (args : List Arg) : M Value := do
  let frame := (← get).frame
  if (frame.path? (.ident name)).map frame.names.reach = some .global then
    match name, ← values args with
    | "Number", [value] => lift (toNumber value)
    | _, _ => failure
  else failure

/-- A new object: a writer, a reader, a map, or an instance of a class. -/
def newObject (target : Expr) (args : List Arg) : M Value := do
  let frame := (← get).frame
  match frame.runtime? target, frame.path? target with
  | some name, _ => do
    match name, ← values args with
    | "BinaryWriter", [] => do
      modify fun σ => { σ with output := [] }
      return .writer
    | "BinaryReader", [.buffer records] => do
      modify fun σ => { σ with input := records, current := none }
      return .reader
    | _, _ => failure
  | none, some path => do
    let args ← values args
    match frame.names.reach path, path, args with
    | .message typeName, _, _ => call (.construct typeName args)
    | .global, ["Map"], [] => return .map []
    | .global, ["Map"], [.list pairs] => lift (mapOf pairs)
    | _, _, _ => failure
  | none, none => failure

/-- The result of a binary operation on two values. -/
def operate (operator : String) (a b : Value) : Option Value :=
  if operator = "===" then (a.strictlyEqual b).map .bool
  else if operator = "!==" then (a.strictlyEqual b).map fun same => .bool !same
  else if operator = "==" then (a.looselyEqual b).map .bool
  else if operator = "!=" then (a.looselyEqual b).map fun same => .bool !same
  else if operator = ">" then
    match a, b with
    | .scalar (.int a), .scalar (.int b) => some (.bool (decide (a > b)))
    | _, _ => none
  else if operator = "in" then
    match a, b with
    | .scalar (.string name), .record properties =>
      (propertyOf properties name).map fun _ => .bool (properties.lookup name).isSome
    | _, _ => none
  else none

/-- Whether a value is an instance of a class of the runtime, which has to be that of readers. -/
def isReader (object : Value) (className : Option String) : Option Value :=
  if className = some "BinaryReader" then
    match object with
    | .reader => some (.bool true)
    | .buffer _ => some (.bool false)
    | _ => none
  else none

end Calls

/-- Runs a block as long as a condition holds, at most as often as the number says. -/
def repeatWhile (condition : M Value) (body : M Flow) : Nat → M Flow
  | 0 => failure
  | fuel + 1 => do
    if ← lift (← condition).truth then
      match ← body with
      | .next => repeatWhile condition body fuel
      | .leave => return .next
      | .give value => return .give value
    else return .next

/-- Runs a block for each element. -/
def forEach (body : Value → M Flow) : List Value → M Flow
  | [] => return .next
  | item :: items => do
    match ← body item with
    | .next => forEach body items
    | .leave => return .next
    | .give value => return .give value

/-- Runs the block of a choice, which can be left. -/
def inChoice (body : M Flow) : M Flow := do
  match ← inBlock body with
  | .give value => return .give value
  | _ => return .next

/-- The name of a property. -/
def propertyName : PropertyKey → String
  | .name name => name
  | .number value => toString value

section Running

variable (fuel : Nat) (call : Invocation → M Value)

mutual

/-- The value of an expression. -/
def eval : Expr → M Value
  | .ident name => nameValue name
  | .thisRef => do return (← get).frame.self
  | .null => return .scalar .null
  | .bool value => return .bool value
  | .number text => return .ofNumber text
  | .string text => return .string text
  | .member target name => do
    let frame := (← get).frame
    match frame.path? (.member target name) with
    -- a dotted name of the module
    | some path => lift (frame.names.value? path)
    | none => memberValue call (← eval target) name
  | .index target index => do elementValue (← eval target) (← eval index)
  | .call .superRef _ => return .undefined
  | .call (.ident name) arguments => functionCall name (evalArgs arguments)
  | .call (.member target name) arguments =>
    memberCall call target (eval target) name (evalArgs arguments)
  | .construct callee arguments => newObject call callee (evalArgs arguments)
  | .array items => do return .list (← values (evalArgs items))
  | .object properties _ => do return .record (← evalProperties properties)
  | .binary left operator right =>
    if operator = "=" then do
      let value ← eval right
      assign call left value
      return value
    else if operator = "&&" then do
      let value ← eval left
      if ← lift value.truth then eval right else return value
    else if operator = "||" then do
      let value ← eval left
      if ← lift value.truth then return value else eval right
    else if operator = "instanceof" then do
      lift (isReader (← eval left) ((← get).frame.runtime? right))
    else do
      let a ← eval left
      let b ← eval right
      lift (operate operator a b)
  | .unary operator operand =>
    if operator = "!" then do return .bool !(← lift (← eval operand).truth) else failure
  | .typeOf operand => do
    let text ← lift (← eval operand).typeOf
    return .string text
  | .cast operand _ => eval operand
  | .conditional condition positive negative => do
    if ← lift (← eval condition).truth then eval positive else eval negative
  | _ => failure

/-- What happens when an argument is called. -/
def runArg : Expr → List Value → M Value
  | .arrow params _ body, arguments => inBlock do
    bindParams params arguments
    eval body
  | .arrowBlock params _ body, arguments => inBlock do
    bindParams params arguments
    match ← execAll body with
    | .give value => return value
    | _ => return .undefined
  | .member target name, _ => do
    match ← eval target, Text.afterStart? "read" name with
    | .reader, some routine => readValue routine
    | _, _ => failure
  | _, _ => failure

/-- The arguments of a call. -/
def evalArgs : List Expr → List Arg
  | [] => []
  | e :: es => ⟨e, eval e, runArg e⟩ :: evalArgs es

/-- The properties of an object literal. -/
def evalProperties : List (PropertyKey × Expr) → M (List (String × Value))
  | [] => return []
  | (key, e) :: rest => do
    let value ← eval e
    let others ← evalProperties rest
    return (propertyName key, value) :: others

/-- Runs a statement. -/
def exec : Stmt → M Flow
  | .expr e => do
    let _ ← eval e
    return .next
  | .ret none => return .give .undefined
  | .ret (some e) => do return .give (← eval e)
  | .const binding _ e => do
    -- the constant hides its name already while its value is computed
    let value ← inBlock do
      reserve binding
      eval e
    bindTo binding value
    return .next
  | .declare name => do
    declare name .undefined
    return .next
  | .branch condition body none => do
    if ← lift (← eval condition).truth then inBlock (execAll body) else return .next
  | .branch condition body (some other) => do
    if ← lift (← eval condition).truth then inBlock (execAll body) else inBlock (execAll other)
  | .forOf binding items body => do
    let items ← lift (← eval items).elements
    forEach (fun item => inBlock do
      bindTo binding item
      execAll body) items
  | .loop condition body => repeatWhile (eval condition) (inBlock (execAll body)) fuel
  | .select subject cases none => do
    inChoice (execCases (← eval subject) (return .next) cases)
  | .select subject cases (some default) => do
    inChoice (execCases (← eval subject) (execAll default) cases)
  | .leave => return .leave

/-- Runs statements one after the other. -/
def execAll : List Stmt → M Flow
  | [] => return .next
  | s :: rest => do
    match ← exec s with
    | .next => execAll rest
    | flow => return flow

/-- Runs the statements of the first case that equals a value. A case that does not end by leaving
the choice is not described. -/
def execCases (value : Value) (default : M Flow) : List (Expr × List Stmt) → M Flow
  | [] => default
  | (e, body) :: rest => do
    if ← lift (value.strictlyEqual (← eval e)) then
      match ← execAll body with
      | .next => failure
      | flow => return flow
    else execCases value default rest

end

end Running

/-! ## In turn -/

section Turns

variable {fuel : Nat} {call : Invocation → M Value} {σ τ : Store}

theorem eval_variable {name : String} {v : Value} (h : σ.frame.locals.lookup name = some (some v)) :
    eval fuel call (.ident name) σ = some (v, σ) := by
  simp [eval, nameValue, h]

theorem values_nil : values (evalArgs fuel call []) σ = some ([], σ) := by
  rw [evalArgs]
  rfl

theorem values_cons {ρ : Store} {e : Expr} {es : List Expr} {v : Value} {vs : List Value}
    (h : eval fuel call e σ = some (v, τ))
    (hs : values (evalArgs fuel call es) τ = some (vs, ρ)) :
    values (evalArgs fuel call (e :: es)) σ = some (v :: vs, ρ) := by
  simp [evalArgs, values, h, hs]

theorem execAll_cons {s : Stmt} (h : exec fuel call s σ = some (.next, τ)) (rest : List Stmt) :
    execAll fuel call (s :: rest) σ = execAll fuel call rest τ := by
  rw [execAll, bind_run, h, Option.bind_some]

theorem exec_expr {e : Expr} {v : Value} (h : eval fuel call e σ = some (v, τ)) :
    exec fuel call (.expr e) σ = some (.next, τ) := by
  rw [exec, bind_run, h]
  rfl

end Turns

end Protoscribe.Evaluation

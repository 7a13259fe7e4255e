import Protoscribe.Message.Instance

set_option autoImplicit false

/-! # The binary form

`serialize` writes the properties that hold a value, in the order of the fields, and `deserialize`
reads fields by number until the input or the enclosing group ends, skipping the numbers it does
not know. The names of the routines come from the plan, so both directions agree on them.
-/

namespace Protoscribe

open TypeScript

namespace Codec

/-! ## Writing -/

def writer : Expr := .ident "writer"

/-- A call of a writing routine. -/
def write (routine : String) (arguments : List Expr) : Expr :=
  writer.method ("write" ++ routine) arguments

/-- A message written to the current writer. -/
def writeInto (message : Expr) : Expr := message.method "serialize" [writer]

/-- The arguments that write the value of a map entry. -/
def mapValueArguments (value : FieldDescriptor) : List Expr :=
  [.int 2, .ident "value"]
    ++ if value.isMessage then [.lambda [] (writeInto (.ident "value"))] else []

/-- The statement that writes every entry of a map. -/
def writeMap (p : Property) (key value : MapSide) : Stmt :=
  .forOf (.elements ["key", "value"]) p.onThis
    [.expr (write "Message" [.int p.number, p.onThis,
      .arrowBlock [] none
        [.expr (write key.routine [.int 1, .ident "key"]),
          .expr (write value.routine (mapValueArguments value.descriptor))]])]

/-- The test whether a property is written: a single string is when it has characters, and any
other property is when it has a value. -/
def isWritten (p : Property) : Expr :=
  if p.slot.descriptor.type = .string && !p.slot.isList then
    .and (.binary (.typeOf p.onThis) "===" (.string "string")) (.member p.onThis "length")
  else .binary p.onThis "!==" .undefined

/-- The statement that writes a property. -/
def writeProperty (scope : Scope) (p : Property) : Stmt :=
  match p.content with
  | .map key value => writeMap p key value
  | .message typeName true routine =>
    .guarded (isWritten p) [.expr (write routine [.int p.number, p.onThis,
      .lambda [.typed "item" (scope.typeRef typeName)] (writeInto (.ident "item"))])]
  | .message _ false routine =>
    .guarded (isWritten p) [.expr (write routine [.int p.number, p.onThis,
      .lambda [] (writeInto p.onThis)])]
  | .scalar _ _ routine _ =>
    .guarded (isWritten p) [.expr (write routine [.int p.number, p.onThis])]

/-- The bytes of an encoded message. -/
def bytesType : Ty := .named "Uint8Array"

/-- The type of writers. -/
def writerType (scope : Scope) : Ty := .named (scope.runtime ++ ".BinaryWriter")

/-- The type of readers. -/
def readerType (scope : Scope) : Ty := .named (scope.runtime ++ ".BinaryReader")

/-- The statements of `serialize`. -/
def serializeBody (scope : Scope) (plan : Plan) : List Stmt :=
  [.constant "writer" (.binary (.ident "w") "||"
      (.construct (.member (.ident scope.runtime) "BinaryWriter") []))]
    ++ plan.properties.map (writeProperty scope)
    ++ [.guarded (.not (.ident "w")) [.give (writer.method "getResultBuffer" [])]]

/-- One overload of `serialize`. -/
def overload (params : List Param) (result : Ty) (body : Option (List Stmt)) : Member :=
  .method "serialize" false false params (some result) body

/-- The overloads of `serialize`: without a writer it gives the bytes, with one it appends to
it. -/
def serialize (scope : Scope) (plan : Plan) : List Member :=
  [overload [] bytesType none,
    overload [.typed "w" (writerType scope)] (.named "void") none,
    overload [.optionalTyped "w" (writerType scope)] (.union [bytesType, .named "void"])
      (some (serializeBody scope plan))]

/-! ## Reading -/

def reader : Expr := .ident "reader"

/-- The call that reads one message, handing it to `store`. -/
def readMessage (target store : Expr) : Expr :=
  reader.method "readMessage" [target, .lambda [] store]

/-- The instance of a message type read from the current reader. -/
def readFrom (scope : Scope) (typeName : String) : Expr :=
  (scope.valueRef typeName).method "deserialize" [reader]

/-- The function that reads the value of a map entry. -/
def mapValueReader (scope : Scope) (value : MapSide) : Expr :=
  if value.descriptor.isMessage then
    .arrowBlock [] none
      [.declare "value",
        .expr (readMessage (.ident "message")
          (.assign (.ident "value") (readFrom scope value.descriptor.typeName))),
        .give (.ident "value")]
  else .member reader ("read" ++ value.routine)

/-- The expression that reads a property into `message`. -/
def readProperty (scope : Scope) (p : Property) : Expr :=
  let target := p.on "message"
  match p.content with
  -- a list that is not packed arrives one element at a time
  | .scalar true false _ routine =>
    scope.runtimeCall "addToRepeatedField"
      [.ident "message", .int p.number, reader.method ("read" ++ routine) []]
  | .scalar _ _ _ routine => .assign target (reader.method ("read" ++ routine) [])
  | .map key value =>
    readMessage (.ident "message")
      (Expr.method (.member (.ident scope.runtime) "Map") "deserializeBinary"
        [.cast target (.named "any"), reader, .member reader ("read" ++ key.routine),
          mapValueReader scope value])
  | .message typeName true _ =>
    readMessage target (scope.runtimeCall "addToRepeatedWrapperField"
      [.ident "message", .int p.number, readFrom scope typeName, scope.valueRef typeName])
  | .message typeName false _ => readMessage target (.assign target (readFrom scope typeName))

/-- The case that reads a property. -/
def readCase (scope : Scope) (p : Property) : Expr × List Stmt :=
  (.int p.number, [.expr (readProperty scope p), .leave])

/-- The statements of `deserialize`. -/
def deserializeBody (scope : Scope) (plan : Plan) : List Stmt :=
  let readerClass : Expr := .member (.ident scope.runtime) "BinaryReader"
  [.constant "reader" (.conditional (.binary (.ident "bytes") "instanceof" readerClass)
      (.ident "bytes") (.construct readerClass [.ident "bytes"])),
    .constant "message" (.construct (.ident plan.name) []),
    .loop (reader.method "nextField" [])
      -- the end of the enclosing group ends the message too
      [.guarded (reader.method "isEndGroup" []) [.leave],
        .select (reader.method "getFieldNumber" []) (plan.properties.map (readCase scope))
          (some [.expr (reader.method "skipField" [])])],
    .give (.ident "message")]

/-- The method that reads an instance. -/
def deserialize (scope : Scope) (plan : Plan) : Member :=
  .method "deserialize" true false [.typed "bytes" (.union [bytesType, readerType scope])]
    (some (.named plan.name)) (some (deserializeBody scope plan))

/-- The two methods that convert to and from bytes without a writer or reader. -/
def byteMethods (plan : Plan) : List Member :=
  [.method "serializeBinary" false false [] (some bytesType)
      (some [.give (Expr.thisRef.method "serialize" [])]),
    .method "deserializeBinary" true false [.typed "bytes" bytesType] (some (.named plan.name))
      (some [.give (Expr.method (.ident plan.name) "deserialize" [.ident "bytes"])])]

end Codec

end Protoscribe

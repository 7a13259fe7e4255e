import Protoscribe.Wire.Cursor
import Protoscribe.Wire.Schema

set_option autoImplicit false

/-! # Records

A message on the wire is a list of records: a field number and a value of the form that the
schema gives to the field. Fields that the schema does not know leave no record. Messages nest at
most `budget` deep.
-/

namespace Protoscribe.Wire

/-- The value of a field. -/
inductive Value where
  | number (n : Nat)
  | numbers (ns : List Nat)
  | text (s : String)
  /-- A value of which nothing but its form is looked at. -/
  | unread
  | message (records : List (Nat × Value))

/-- A field number and the value of the field. -/
abbrev Record := Nat × Value

/-- A reading step as one that tells where its faults are. -/
def located {pos : Nat} {α : Type} (step : Except Cause (After pos α)) :
    Except Fault (After pos α) :=
  step.mapError Fault.ofCause

/-- Checks the wire type of a field. -/
def expect (actual expected : WireType) : Except Fault Unit :=
  if actual = expected then .ok () else .error (.ofCause (.wireType actual expected))

/-- Reads a text. -/
def readText (data : ByteArray) (pos : Nat) : Except Cause (After pos String) := do
  let length ← readLength data pos
  match String.fromUTF8? (data.extract length.next (length.next + length.value)) with
  | none => throw .notText
  | some text => return length.skip length.value text

/-- Reads the records of a message of a kind, from a position up to a limit. -/
abbrev RecordReader := (kind : Kind) → (limit pos : Nat) → Except Fault (List Record)

/-- Reads a value of a form. There is no reader for the messages in it when messages may not nest
any deeper. -/
def readValue (data : ByteArray) (inner : Option RecordReader) (form : Form) (wireType : WireType)
    (pos : Nat) : Except Fault (After pos Value) := do
  match form with
  | .number =>
    expect wireType .varint
    let n ← located (readVarint data pos)
    return n.map .number
  | .numbers =>
    if wireType = .delimited then
      -- several numbers together, behind their common length
      let length ← located (readLength data pos)
      let limit := length.next + length.value
      let ns ← collect (fun pos => located (readVarint data pos)) limit length.next
      return length.skip length.value (.numbers ns)
    else
      expect wireType .varint
      let n ← located (readVarint data pos)
      return n.map fun n => .numbers [n]
  | .double =>
    expect wireType .fixed64
    let passed ← located (passOver data 7 pos)
    return passed.map fun _ => .unread
  | .text =>
    expect wireType .delimited
    let text ← located (readText data pos)
    return text.map .text
  | .bytes =>
    expect wireType .delimited
    let length ← located (readLength data pos)
    return length.skip length.value .unread
  | .message kind =>
    expect wireType .delimited
    -- the depth is checked before the length is read
    match inner with
    | none => throw (.ofCause .tooDeep)
    | some readInner =>
      let length ← located (readLength data pos)
      let records ← readInner kind (length.next + length.value) length.next
      return length.skip length.value (.message records)

/-- Reads a field of a message of a kind; a field that the schema does not know is passed over. -/
def readRecord (data : ByteArray) (budget : Nat) (inner : Option RecordReader) (kind : Kind)
    (pos : Nat) : Except Fault (After pos (Option Record)) := do
  let key ← located (readKey data pos)
  match kind.fieldAt? key.value.number with
  | none =>
    let passed ← located (passOverField data budget key.value key.next)
    return (key.followedBy passed).map fun _ => none
  | some field =>
    match readValue data inner field.form key.value.wireType key.next with
    | .error fault => throw (fault.within (kind.name ++ "." ++ field.name))
    | .ok value => return (key.followedBy value).map fun value => some (field.number, value)

/-- Reads the records of a message in which messages nest at most `budget` deep. -/
def readRecords (data : ByteArray) : Nat → RecordReader
  | 0, kind, limit, pos => do
    let records ← collect (readRecord data 0 none kind) limit pos
    return records.filterMap id
  | budget + 1, kind, limit, pos => do
    let records ←
      collect (readRecord data (budget + 1) (some (readRecords data budget)) kind) limit pos
    return records.filterMap id

/-- The number of messages that may stand inside one another in a request. -/
def nestingLimit : Nat := 100

/-- The records of a request. -/
def requestRecords (data : ByteArray) : Except Fault (List Record) :=
  readRecords data nestingLimit .request data.size 0

end Protoscribe.Wire

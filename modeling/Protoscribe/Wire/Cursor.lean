import Protoscribe.Wire.Fault

set_option autoImplicit false

/-! # Reading bytes

A reading step starts at a position in the bytes and ends at a later one (`After`), so a loop of
steps ends. No step knows where the message it belongs to ends; only the end of all bytes stops
it. `collect` repeats a step up to a limit and tells when the last step went past it.
-/

namespace Protoscribe.Wire

/-- What a reading step gave, and the later position at which it ended. -/
structure After (pos : Nat) (α : Type) where
  value : α
  next : Nat
  moved : pos < next

namespace After

/-- The same step with another value. -/
def map {pos : Nat} {α β : Type} (f : α → β) (a : After pos α) : After pos β :=
  ⟨f a.value, a.next, a.moved⟩

/-- A step that goes `count` further and gives another value. -/
def skip {pos : Nat} {α β : Type} (a : After pos α) (count : Nat) (value : β) : After pos β :=
  ⟨value, a.next + count, Nat.lt_of_lt_of_le a.moved (Nat.le_add_right _ _)⟩

/-- A second step that starts where the first one ended, as one step. -/
def followedBy {pos : Nat} {α β : Type} (a : After pos α) (b : After a.next β) : After pos β :=
  ⟨b.value, b.next, Nat.lt_trans a.moved b.moved⟩

end After

/-- Reads a number of at most `count` bytes, seven bits a byte and the low ones first. The last
byte is the first without its high bit; a tenth byte has room for one bit only. -/
def varintWithin (data : ByteArray) : (count pos : Nat) → Except Cause (After pos Nat)
  | 0, _ => .error .varint
  | count + 1, pos =>
    if h : pos < data.size then
      let byte := data[pos].toNat
      if byte < 128 then
        -- nine bytes hold 63 bits, so the tenth can add no more than the last one
        if count = 0 ∧ 2 ≤ byte then .error .varint
        else .ok ⟨byte, pos + 1, Nat.lt_succ_self pos⟩
      else
        match varintWithin data count (pos + 1) with
        | .error cause => .error cause
        | .ok rest =>
          .ok ⟨byte - 128 + 128 * rest.value, rest.next,
            Nat.lt_trans (Nat.lt_succ_self pos) rest.moved⟩
    else .error .varint

/-- Reads a number of at most ten bytes. -/
def readVarint (data : ByteArray) (pos : Nat) : Except Cause (After pos Nat) :=
  varintWithin data 10 pos

/-- The key of a field. -/
structure Key where
  number : Nat
  wireType : WireType

/-- The key that a number stands for: the wire type in the low three bits and the field number
above them, in 32 bits altogether. -/
def keyOf (n : Nat) : Except Cause Key :=
  if UInt32.size ≤ n then .error (.keyRange n)
  else match WireType.ofNumber? (n % 8) with
    | none => .error (.wireTypeRange (n % 8))
    | some wireType => if n / 8 = 0 then .error .fieldZero else .ok ⟨n / 8, wireType⟩

/-- Reads the key of a field. -/
def readKey (data : ByteArray) (pos : Nat) : Except Cause (After pos Key) := do
  let n ← readVarint data pos
  let key ← keyOf n.value
  return n.map fun _ => key

/-- Reads a length that the remaining bytes have room for. -/
def readLength (data : ByteArray) (pos : Nat) : Except Cause (After pos Nat) := do
  let length ← readVarint data pos
  if data.size - length.next < length.value then throw .tooShort
  return length

/-- Passes over `count + 1` bytes. -/
def passOver (data : ByteArray) (count pos : Nat) : Except Cause (After pos Unit) :=
  if data.size - pos < count + 1 then .error .tooShort
  else .ok ⟨(), pos + (count + 1), Nat.lt_add_of_pos_right (Nat.succ_pos count)⟩

/-- Passes over the fields of a group, up to the end mark with the number of the group. -/
def passOverGroup (data : ByteArray) (number : Nat)
    (passField : Key → (pos : Nat) → Except Cause (After pos Unit)) (pos : Nat) :
    Except Cause (After pos Unit) :=
  if _h : pos < data.size then
    match readKey data pos with
    | .error cause => .error cause
    | .ok key =>
      if key.value.wireType = .endGroup then
        if key.value.number = number then .ok (key.map fun _ => ()) else .error .endOfGroup
      else
        match passField key.value key.next with
        | .error cause => .error cause
        | .ok field =>
          have : pos < field.next := Nat.lt_trans key.moved field.moved
          match passOverGroup data number passField field.next with
          | .error cause => .error cause
          | .ok rest => .ok ((key.followedBy field).followedBy rest)
  else .error .varint
termination_by data.size - pos

/-- Passes over a field; groups in it may nest `budget` deep. -/
def passOverField (data : ByteArray) : Nat → Key → (pos : Nat) → Except Cause (After pos Unit)
  | 0, _, _ => .error .tooDeep
  | budget + 1, key, pos =>
    match key.wireType with
    | .varint => (readVarint data pos).map fun n => n.map fun _ => ()
    | .fixed64 => passOver data 7 pos
    | .delimited => (readLength data pos).map fun length => length.skip length.value ()
    | .startGroup => passOverGroup data key.number (passOverField data budget) pos
    | .endGroup => .error .endOfGroup
    | .fixed32 => passOver data 3 pos

/-- Repeats a step from `pos` until `limit` is reached, which a step must not pass. -/
def collect {α : Type} (step : (pos : Nat) → Except Fault (After pos α)) (limit pos : Nat) :
    Except Fault (List α) :=
  if _h : pos < limit then
    match step pos with
    | .error fault => .error fault
    | .ok a =>
      have := a.moved
      match collect step limit a.next with
      | .error fault => .error fault
      | .ok rest => .ok (a.value :: rest)
  -- a step knows no limit, so the last one may have gone past it
  else if pos = limit then .ok [] else .error (.ofCause .tooLong)
termination_by limit - pos

end Protoscribe.Wire

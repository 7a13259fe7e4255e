import Protoscribe.Message.Codec
import Protoscribe.Proofs.Evaluation.Steps
import Protoscribe.Proofs.Text.Segments

set_option autoImplicit false

/-! # Calls of the writer

What a call of a writing routine appends: one record for a value (`eval_write_value`), one for each
element or one for a whole list (`eval_write_repeated`, `eval_write_packed`), and one for what a
callback writes (`eval_write_message`, `eval_write_messages`).
-/

namespace Protoscribe.Evaluation

open TypeScript

variable {fuel : Nat} {call : Invocation → M Value} {σ τ : Store}

/-- The state after records were appended. -/
def Store.appending (σ : Store) (records : List Record) : Store :=
  { σ with output := σ.output ++ records }

@[simp] theorem Store.appending_nil (σ : Store) : σ.appending [] = σ := by
  simp [Store.appending]

theorem Store.appending_append (σ : Store) (a b : List Record) :
    (σ.appending a).appending b = σ.appending (a ++ b) := by
  simp [Store.appending]

@[simp] theorem Store.appending_frame (σ : Store) (records : List Record) :
    (σ.appending records).frame = σ.frame := rfl

/-- The records of a packed list. -/
def packedRecords (number : Int) (routine : String) : List Value → List Record
  | [] => []
  | item :: items => [(number, routine, .list (item :: items))]

/-! ## Names of routines -/

/-- A name of a routine that carries one value. -/
def IsBase (routine : String) : Prop :=
  Text.afterStart? "Repeated" routine = none ∧ Text.afterStart? "Packed" routine = none

theorem append_ne_of_head {start text : String} {c d : Char} {cs ds : List Char}
    (hStart : start.toList = c :: cs) (hText : text.toList = d :: ds) (h : c ≠ d)
    (rest : String) : start ++ rest ≠ text := by
  intro hSame
  have hChars := congrArg String.toList hSame
  rw [String.toList_append, hStart, hText, List.cons_append] at hChars
  exact h (List.cons.inj hChars).1

theorem afterStart?_write (routine : String) :
    Text.afterStart? "write" ("write" ++ routine) = some routine :=
  Text.afterStart?_eq_some.2 rfl

/-! ## Appending -/

theorem appendEach_run (number : Int) (routine : String) (items : List Value) :
    appendEach number routine items σ =
      some (⟨⟩, σ.appending (items.map fun item => (number, routine, item))) := by
  induction items generalizing σ with
  | nil => simp [appendEach]
  | cons item items ih =>
      rw [appendEach, bind_run, append, modify_run, Option.bind_some, ih]
      simp [Store.appending]

/-- What a callback writes goes into one record; whatever the writer held before is kept. -/
theorem appendNested_run {number : Int} {body : M Value} {result : Value} {records : List Record}
    (h : body { σ with output := [] } = some (result, { σ with output := records })) :
    appendNested number body σ =
      some (⟨⟩, σ.appending [(number, "Message", .buffer records)]) := by
  simp [appendNested, h, Store.appending]

theorem appendMessages_run {α : Type} {number : Int} {write : Value → M Value} {parts : List α}
    {value : α → Value} {records : α → List Record}
    (h : ∀ part ∈ parts, ∃ result, write (value part) { σ with output := [] } =
      some (result, { σ with output := records part })) :
    appendMessages number write (parts.map value) σ =
      some (⟨⟩, σ.appending (parts.map fun part => (number, "Message", .buffer (records part)))) := by
  induction parts generalizing σ with
  | nil => simp [appendMessages]
  | cons part parts ih =>
      obtain ⟨⟨result, hFirst⟩, hRest⟩ := List.forall_mem_cons.1 h
      rw [List.map_cons, appendMessages, bind_run, appendNested_run hFirst, Option.bind_some,
        ih (σ := σ.appending _) hRest, Store.appending_append]
      rfl

/-! ## Routines -/

/-- A new writer holds nothing. -/
theorem eval_newWriter {runtime : String} (hRuntime : σ.frame.names.runtime = runtime) :
    eval fuel call (.construct (.member (.ident runtime) "BinaryWriter") []) σ =
      some (.writer, { σ with output := [] }) := by
  simp [eval, newObject, frame_runtime? hRuntime, evalArgs, values]

section Routines

variable {e₁ e₂ e₃ : Expr} {number : Int} {value : Value} {routine : String}
  (hWriter : σ.frame.locals.lookup "writer" = some (some .writer))
  (hNumber : eval fuel call e₁ σ = some (.int number, σ))
  (hValue : eval fuel call e₂ σ = some (value, σ)) (present : value.isMissing = false)

include hWriter in
theorem eval_write (routine : String) (args : List Expr) :
    eval fuel call (Codec.write routine args) σ =
      writerCall ("write" ++ routine) (evalArgs fuel call args) σ :=
  eval_method (isLocal_variable (by rw [hWriter]; rfl)) (eval_variable hWriter) args

include hWriter in
/-- What the writer holds. -/
theorem eval_resultBuffer :
    eval fuel call (Codec.writer.method "getResultBuffer" []) σ = some (.buffer σ.output, σ) := by
  rw [Codec.writer, eval_method (isLocal_variable (by rw [hWriter]; rfl)) (eval_variable hWriter)]
  rfl

include hWriter hNumber hValue present

theorem eval_write_with {result : List Record}
    (h : appendValue number routine value σ = some (⟨⟩, σ.appending result)) :
    eval fuel call (Codec.write routine [e₁, e₂]) σ = some (.undefined, σ.appending result) := by
  have hNumber' : eval fuel call e₁ σ = some (.scalar (.int number), σ) := hNumber
  rw [eval_write hWriter]
  simp [writerCall, afterStart?_write, evalArgs, hNumber', hValue, present, h]

/-- One record for a value. -/
theorem eval_write_value (hBase : IsBase routine) :
    eval fuel call (Codec.write routine [e₁, e₂]) σ =
      some (.undefined, σ.appending [(number, routine, value)]) := by
  refine eval_write_with hWriter hNumber hValue present ?_
  unfold appendValue
  rw [hBase.1, hBase.2]
  rfl

omit hValue present in
/-- One record for each element. -/
theorem eval_write_repeated {items : List Value}
    (hValue : eval fuel call e₂ σ = some (.list items, σ)) :
    eval fuel call (Codec.write ("Repeated" ++ routine) [e₁, e₂]) σ =
      some (.undefined, σ.appending (items.map fun item => (number, routine, item))) := by
  refine eval_write_with hWriter hNumber hValue rfl ?_
  have hStart : Text.afterStart? "Repeated" ("Repeated" ++ routine) = some routine :=
    Text.afterStart?_eq_some.2 rfl
  unfold appendValue
  rw [hStart]
  exact appendEach_run number routine items

omit hValue present in
/-- One record for a whole list, unless it is empty. -/
theorem eval_write_packed {items : List Value}
    (hValue : eval fuel call e₂ σ = some (.list items, σ)) :
    eval fuel call (Codec.write ("Packed" ++ routine) [e₁, e₂]) σ =
      some (.undefined, σ.appending (packedRecords number ("Packed" ++ routine) items)) := by
  refine eval_write_with hWriter hNumber hValue rfl ?_
  have hRepeated : Text.afterStart? "Repeated" ("Packed" ++ routine) = none := by
    cases h : Text.afterStart? "Repeated" ("Packed" ++ routine) with
    | none => rfl
    | some rest =>
        have hSame := Text.afterStart?_eq_some.1 h
        exact absurd hSame fun hSame => by
          have hChars := congrArg String.toList hSame
          simp at hChars
  have hStart : Text.afterStart? "Packed" ("Packed" ++ routine) = some routine :=
    Text.afterStart?_eq_some.2 rfl
  unfold appendValue
  rw [hRepeated, hStart]
  cases items with
  | nil => simp [packedRecords]
  | cons item items => rfl

/-- One record for what a callback writes. -/
theorem eval_write_message {result : Value} {records : List Record}
    (hBody : runArg fuel call e₃ [value, .writer] { σ with output := [] } =
      some (result, { σ with output := records })) :
    eval fuel call (Codec.write "Message" [e₁, e₂, e₃]) σ =
      some (.undefined, σ.appending [(number, "Message", .buffer records)]) := by
  have hNumber' : eval fuel call e₁ σ = some (.scalar (.int number), σ) := hNumber
  have hStart : Text.afterStart? "write" "writeMessage" = some "Message" :=
    Text.afterStart?_eq_some.2 rfl
  rw [eval_write hWriter]
  simp [writerCall, hStart, evalArgs, hNumber', hValue, present, appendNested_run hBody]

omit hValue present in
/-- One record for each message, with what a callback writes for it. -/
theorem eval_write_messages {α : Type} {parts : List α} {content : α → Value}
    {records : α → List Record}
    (hValue : eval fuel call e₂ σ = some (.list (parts.map content), σ))
    (hBody : ∀ part ∈ parts, ∃ result,
      runArg fuel call e₃ [content part, .writer] { σ with output := [] } =
        some (result, { σ with output := records part })) :
    eval fuel call (Codec.write "RepeatedMessage" [e₁, e₂, e₃]) σ =
      some (.undefined,
        σ.appending (parts.map fun part => (number, "Message", .buffer (records part)))) := by
  have hNumber' : eval fuel call e₁ σ = some (.scalar (.int number), σ) := hNumber
  have hStart : Text.afterStart? "write" "writeRepeatedMessage" = some "RepeatedMessage" :=
    Text.afterStart?_eq_some.2 rfl
  have hParts : appendMessages number (fun item => runArg fuel call e₃ [item, .writer])
      (parts.map content) σ = some (⟨⟩,
        σ.appending (parts.map fun part => (number, "Message", .buffer (records part)))) :=
    appendMessages_run hBody
  rw [eval_write hWriter]
  simp [writerCall, hStart, evalArgs, hNumber', hValue, Value.isMissing, hParts]

end Routines

/-! ## Loops that write -/

/-- A loop whose body appends records for each element. -/
theorem forEach_run {α : Type} {body : Value → M Flow} {parts : List α} {element : α → Value}
    {records : α → List Record}
    (h : ∀ part ∈ parts, ∀ τ : Store, τ.frame = σ.frame →
      body (element part) τ = some (.next, τ.appending (records part))) :
    forEach body (parts.map element) σ =
      some (.next, σ.appending (parts.flatMap records)) := by
  induction parts generalizing σ with
  | nil => simp [forEach]
  | cons part parts ih =>
      obtain ⟨hFirst, hRest⟩ := List.forall_mem_cons.1 h
      rw [List.map_cons, forEach, bind_run, hFirst σ rfl, Option.bind_some]
      simp only [ih (σ := σ.appending (records part)) hRest, Store.appending_append,
        List.flatMap_cons]

end Protoscribe.Evaluation

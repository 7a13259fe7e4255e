import Protoscribe.Proofs.Evaluation.Writer

set_option autoImplicit false

/-! # Calls of the reader

A reading routine gives the payload of the record that the reader stands at (`eval_read`), and a
message is read from the records inside it (`eval_readMessage`). A loop over the fields does with
every record what its body does with it, one after the other (`repeatWhile_run`).
-/

namespace Protoscribe.Evaluation

open TypeScript

variable {fuel : Nat} {call : Invocation → M Value} {σ τ : Store}

/-- The state in which the reader stands before some records. -/
def Store.before (σ : Store) (records : List Record) : Store :=
  { σ with input := records, current := none }

/-! ## Routines -/

theorem afterStart?_read (routine : String) :
    Text.afterStart? "read" ("read" ++ routine) = some routine :=
  Text.afterStart?_eq_some.2 rfl

theorem readerCall_read (routine : String) : readerCall ("read" ++ routine) [] = readValue routine := by
  have hNext : "read" ++ routine ≠ "nextField" := append_ne_of_head rfl rfl (by decide) _
  have hEnd : "read" ++ routine ≠ "isEndGroup" := append_ne_of_head rfl rfl (by decide) _
  have hSkip : "read" ++ routine ≠ "skipField" := append_ne_of_head rfl rfl (by decide) _
  have hNumber : "read" ++ routine ≠ "getFieldNumber" := append_ne_of_head rfl rfl (by decide) _
  unfold readerCall
  rw [if_neg hNext, if_neg hEnd, if_neg hSkip, if_neg hNumber, afterStart?_read]

/-- What is done inside a record leaves the reader where it stands. -/
theorem readNested_run {number : Int} {records : List Record} {body : M Value} {v : Value}
    (hCurrent : σ.current = some (number, "Message", .buffer records))
    (h : body (σ.before records) = some (v, τ)) :
    readNested body σ =
      some (.undefined, { τ with input := σ.input, current := σ.current }) := by
  rw [Store.before] at h
  simp [readNested, hCurrent, h]

/-- A new reader stands before the records of a buffer. -/
theorem eval_newReader {runtime : String} {e : Expr} {records : List Record}
    (hRuntime : σ.frame.names.runtime = runtime)
    (h : eval fuel call e σ = some (.buffer records, τ)) :
    eval fuel call (.construct (.member (.ident runtime) "BinaryReader") [e]) σ =
      some (.reader, τ.before records) := by
  simp [eval, newObject, frame_runtime? hRuntime, values_cons h values_nil, Store.before]

section Routines

variable (hReader : σ.frame.locals.lookup "reader" = some (some .reader))

include hReader

theorem eval_reader_method (name : String) (args : List Expr) :
    eval fuel call (Codec.reader.method name args) σ =
      readerCall name (evalArgs fuel call args) σ :=
  eval_method (isLocal_variable (by rw [hReader]; rfl)) (eval_variable hReader) args

/-- A routine gives the payload of the record that it wrote. -/
theorem eval_read {number : Int} {routine : String} {payload : Value}
    (hCurrent : σ.current = some (number, routine, payload)) :
    eval fuel call (Codec.reader.method ("read" ++ routine) []) σ = some (payload, σ) := by
  rw [eval_reader_method hReader, evalArgs, readerCall_read]
  simp [readValue, hCurrent]

/-- A message is read from the records inside the record that the reader stands at. -/
theorem eval_readMessage {target store : Expr} {v result : Value} {number : Int}
    {records : List Record} (hTarget : eval fuel call target σ = some (v, σ))
    (hCurrent : σ.current = some (number, "Message", .buffer records))
    (hStore : eval fuel call store (σ.before records) = some (result, τ))
    (hLength : τ.frame.locals.length = σ.frame.locals.length) :
    eval fuel call (Codec.readMessage target store) σ =
      some (.undefined, { τ with input := σ.input, current := σ.current }) := by
  have hBody : runArg fuel call (.lambda [] store) [v, .reader] (σ.before records) =
      some (result, τ) := runArg_lambda hStore hLength _
  have hStart : Text.afterStart? "read" "readMessage" = some "Message" :=
    Text.afterStart?_eq_some.2 rfl
  rw [Codec.readMessage, eval_reader_method hReader]
  simp [readerCall, hStart, evalArgs, hTarget, readNested_run hCurrent hBody]

/-- A routine that is handed over gives the payload too. -/
theorem runArg_read {number : Int} {routine : String} {payload : Value}
    (hCurrent : σ.current = some (number, routine, payload)) (args : List Value) :
    runArg fuel call (.member Codec.reader ("read" ++ routine)) args σ = some (payload, σ) := by
  rw [runArg, bind_run, Codec.reader, eval_variable hReader, Option.bind_some]
  simp [afterStart?_read, readValue, hCurrent]

end Routines

/-- An entry of a map is read from the record of its key and the record of its value. -/
theorem readEntry_run {readKey readContent : M Value} {first second : Record} {key content : Value}
    (hFirst : first.1 = 1) (hSecond : second.1 = 2)
    (hKey : ∀ τ : Store, τ.frame = σ.frame → τ.current = some first → readKey τ = some (key, τ))
    (hContent : ∀ τ : Store, τ.frame = σ.frame → τ.current = some second →
      readContent τ = some (content, τ)) :
    readEntry readKey readContent .undefined .undefined [first, second] σ =
      some ((key, content), { σ with input := [], current := some second }) := by
  have hTwo : ¬ second.1 = 1 := by omega
  have hKeyRun := hKey { σ with input := [second], current := some first } rfl rfl
  have hContentRun := hContent { σ with input := [], current := some second } rfl rfl
  simp [readEntry, hFirst, hSecond, hKeyRun, hContentRun]

/-- A call of the runtime that reads an entry into the map in a field. -/
theorem mapCall_run {ρ : Store} {target : Expr} {field typeName : String} {type : Ty}
    {value : M Value} {run : List Value → M Value} {argument key content : Arg} {holder : Holder}
    {entries : List (Scalar × Value)} {t : Fields} {number : Int} {k : Scalar} {v : Value}
    (hHolder : holder? target = some holder) (hValue : value σ = some (.map entries, σ))
    (hRead : holder.read σ = some (.instance typeName t, σ))
    (hSlot : call (.slot (.instance typeName t) field) σ = some (.int number, σ))
    (hEntry : readEntry (key.run [.reader]) (content.run [.reader]) .undefined .undefined σ.input σ =
      some ((.scalar k, v), τ))
    (hWrite : holder.write (.instance typeName (t.put number (.map (insertEntry k v entries)))) τ =
      some (⟨⟩, ρ)) :
    mapCall call "deserializeBinary"
        [⟨.cast (.member target field) type, value, run⟩, argument, key, content] σ =
      some (.undefined, ρ) := by
  simp [mapCall, hHolder, hValue, hRead, hSlot, hEntry, Value.int, hWrite]

/-! ## Loops that read -/

/-- The body of a loop takes one record after the other; `frame` says in which frame it runs. -/
inductive Absorbs {α : Type} (frame : α → Frame) (body : M Flow) : List Record → α → α → Prop
  | nil (a : α) : Absorbs frame body [] a a
  | cons {record : Record} {records : List Record} {a b c : α}
      (head : ∀ σ : Store, σ.frame = frame a → σ.current = some record →
        body σ = some (.next, { σ with frame := frame b }))
      (rest : Absorbs frame body records b c) : Absorbs frame body (record :: records) a c

section Absorbs

variable {α : Type} {frame : α → Frame} {body : M Flow} {records others : List Record} {a b c : α}

theorem Absorbs.append (h : Absorbs frame body records a b) (hOthers : Absorbs frame body others b c) :
    Absorbs frame body (records ++ others) a c := by
  induction h with
  | nil => exact hOthers
  | cons head _ ih => exact .cons head (ih hOthers)

/-- A loop over the fields takes all records. -/
theorem repeatWhile_run {condition : M Value}
    (hCondition : ∀ a (σ : Store), σ.frame = frame a → condition σ = nextRecord σ)
    (h : Absorbs frame body records a b) (hFuel : records.length < fuel)
    (hFrame : σ.frame = frame a) (hInput : σ.input = records) :
    repeatWhile condition body fuel σ =
      some (.next, { σ with frame := frame b, input := [], current := none }) := by
  induction h generalizing σ fuel with
  | nil a =>
      obtain ⟨k, rfl⟩ := Nat.exists_eq_succ_of_ne_zero (Nat.ne_of_gt hFuel)
      rw [repeatWhile, bind_run, hCondition a σ hFrame]
      simp [nextRecord, hInput, Value.bool, Value.truth, hFrame]
  | @cons record records a b c head _ ih =>
      obtain ⟨k, rfl⟩ := Nat.exists_eq_succ_of_ne_zero (Nat.ne_of_gt (Nat.zero_lt_of_lt hFuel))
      have hNext : nextRecord σ =
          some (.bool true, { σ with current := some record, input := records }) := by
        simp [nextRecord, hInput]
      have hRest := ih (Nat.lt_of_succ_lt_succ hFuel)
        (σ := { σ with frame := frame b, current := some record, input := records }) rfl rfl
      rw [repeatWhile, bind_run, hCondition a σ hFrame, hNext, Option.bind_some]
      simp [Value.bool, Value.truth,
        head { σ with current := some record, input := records } hFrame rfl, hRest]

end Absorbs

end Protoscribe.Evaluation

import Mathlib.Order.Filter.AtTopBot.Basic
import Mathlib.Order.Filter.Finite
import Protoscribe.Proofs.Message.Instances

set_option autoImplicit false

/-! # Writing an instance and reading it back

Main statement: `deserialize_serialize`, every instance of a class is written to some records, and
where the classes of the messages inside can be read (`Readable`), reading them gives an instance
that is alike: every getter gives what it gave before, in nested messages, lists and maps as well,
except for what is lost (`Plan.Lost`). The getter of a lost property gives what it gives on a new
instance. A class that has the name of a variable of its reading method is not read at all
(`deserialize_taken`).

The proof is by induction on how instances contain one another. The messages inside an instance are
conveyed by records within every large enough bound on nested calls, so the values of its
properties are carried (`carried_of_shape`), and then the instance is conveyed (`writes_instance`,
`runs_instance`).
-/

namespace Protoscribe

open TypeScript Evaluation Filter

/-! ## Values that are alike -/

/-- The number of the populated member of a oneof, or zero: what its getter looks up. -/
def Plan.caseOf (plan : Plan) (index : Nat) (s : Fields) : Int :=
  Fields.caseOf s ((plan.group index).map Property.number)

/-- Values that no getter can tell apart, but for the properties that are lost. -/
inductive Alike (P : Program) : Value → Value → Prop
  | same (v : Value) : Alike P v v
  | list {pairs : List (Value × Value)} (items : ∀ pair ∈ pairs, Alike P pair.1 pair.2) :
      Alike P (.list (pairs.map Prod.fst)) (.list (pairs.map Prod.snd))
  | map {entries : List (Scalar × Value × Value)}
      (values : ∀ entry ∈ entries, Alike P entry.2.1 entry.2.2) :
      Alike P (.map (entries.map fun entry => (entry.1, entry.2.1)))
        (.map (entries.map fun entry => (entry.1, entry.2.2)))
  | instance {typeName : String} {scope : Scope} {m : MessageDescriptor} {plan : Plan}
      {s t : Fields} (known : ClassOf P typeName scope m plan)
      (kept : ∀ p ∈ plan.properties, ¬ plan.Lost scope s p →
        Alike P (p.value scope s) (p.value scope t))
      (lost : ∀ p ∈ plan.properties, plan.Lost scope s p → p.value scope t = p.default scope)
      (cases : ∀ index, (∀ p ∈ plan.group index, p.default scope = .undefined ∧
          ¬ plan.Lost scope s p) → plan.caseOf index t = plan.caseOf index s) :
      Alike P (.instance typeName s) (.instance typeName t)

/-! ## Results -/

/-- A program answers an invocation: every large enough bound on nested calls gives the result. -/
def Evaluation.Program.Answers (P : Program) (invocation : Invocation) (σ : Store) (v : Value)
    (τ : Store) : Prop :=
  ∀ᶠ n in atTop, P.invoke n invocation σ = some (v, τ)

/-- Within a bound, a message is written to some records. -/
def writing (P : Program) (n : Nat) : Nesting := fun _ v records _ => Writes (P.invoke n) v records

/-- Within a bound, a message of a type is written to some records and read back from them. -/
def nests (P : Program) (n : Nat) : Nesting := fun typeName v records back =>
  Writes (P.invoke n) v records ∧ Reads (P.invoke n) typeName records back

/-- A message of a type goes by some records, and a message that is alike stands at the other
end. -/
def Conveyed (P : Program) (nested : Nat → Nesting) (typeName : String) (v : Value) : Prop :=
  ∃ records back, Alike P v back ∧ back.isMissing = false ∧
    ∀ᶠ n in atTop, nested n typeName v records back

/-- The value of a property is carried by some records, and a value that is alike stands at the
other end. -/
def CarriesBack (P : Program) (nested : Nat → Nesting) (p : Property) (v : Value) : Prop :=
  ∃ records back, Alike P v back ∧ back.isMissing = false ∧
    ∀ᶠ n in atTop, Carried (nested n) p v records back

section RoundTrip

variable {P : Program} {nested : Nat → Nesting} {typeName : String} {scope : Scope}
  {m : MessageDescriptor} {plan : Plan} {s : Fields} {p : Property}

/-! ## Values of properties -/

/-- Elements that each come from something come from a list. -/
theorem exists_map {α β : Type} {f : β → α} {φ : β → Prop} :
    ∀ {as : List α}, (∀ a ∈ as, ∃ b, f b = a ∧ φ b) → ∃ bs : List β, as = bs.map f ∧ ∀ b ∈ bs, φ b
  | [], _ => ⟨[], rfl, by simp⟩
  | a :: as, h => by
      obtain ⟨⟨b, rfl, hb⟩, hRest⟩ := List.forall_mem_cons.1 h
      obtain ⟨bs, rfl, hbs⟩ := exists_map hRest
      exact ⟨b :: bs, rfl, List.forall_mem_cons.2 ⟨hb, hbs⟩⟩

theorem eventually_forall_mem {α : Type} {as : List α} {φ : Nat → α → Prop}
    (h : ∀ a ∈ as, ∀ᶠ n in atTop, φ n a) : ∀ᶠ n in atTop, ∀ a ∈ as, φ n a :=
  (eventually_all_finite (List.finite_toSet as)).2 h

/-- A message as a part of a list or a map. -/
theorem Conveyed.part {v : Value} (h : Conveyed P nested typeName v) :
    ∃ part : Part, part.value = v ∧ Alike P part.value part.back ∧
      ∀ᶠ n in atTop, nested n typeName part.value part.records part.back := by
  obtain ⟨records, back, hAlike, -, hNests⟩ := h
  exact ⟨⟨v, records, back⟩, rfl, hAlike, hNests⟩

theorem Alike.parts {parts : List Part} (h : ∀ part ∈ parts, Alike P part.value part.back) :
    Alike P (.list (parts.map Part.value)) (.list (parts.map Part.back)) := by
  let pairs := parts.map fun part => (part.value, part.back)
  have hPairs : Alike P (.list (pairs.map Prod.fst)) (.list (pairs.map Prod.snd)) :=
    .list (by simpa [pairs] using h)
  rwa [List.map_map, List.map_map] at hPairs

theorem Alike.entries {parts : List (Scalar × Part)}
    (h : ∀ entry ∈ parts, Alike P entry.2.value entry.2.back) :
    Alike P (.map (parts.map fun entry => (entry.1, entry.2.value)))
      (.map (parts.map fun entry => (entry.1, entry.2.back))) := by
  let entries := parts.map fun entry => (entry.1, entry.2.value, entry.2.back)
  have hEntries : Alike P (.map (entries.map fun entry => (entry.1, entry.2.1)))
      (.map (entries.map fun entry => (entry.1, entry.2.2))) := by
    refine .map fun entry hMem => ?_
    obtain ⟨part, hPart, rfl⟩ := List.mem_map.1 hMem
    exact h part hPart
  rwa [List.map_map, List.map_map] at hEntries

/-- The value of a map entry is carried. -/
theorem carries_entry {value : MapSide} {v : Value} (present : v.isMissing = false)
    (hNested : value.descriptor.isMessage → Conveyed P nested value.descriptor.typeName v) :
    ∃ part : Part, part.value = v ∧ Alike P part.value part.back ∧
      ∀ᶠ n in atTop, value.Carries (nested n) part := by
  by_cases hMessage : value.descriptor.isMessage
  · obtain ⟨part, rfl, hAlike, hNests⟩ := (hNested hMessage).part
    refine ⟨part, rfl, hAlike, hNests.mono fun n h => ?_⟩
    rw [MapSide.Carries, if_pos hMessage]
    exact h
  · refine ⟨⟨v, [], v⟩, rfl, .same v, .of_forall fun n => ?_⟩
    rw [MapSide.Carries, if_neg hMessage]
    exact ⟨present, rfl⟩

section Carried

variable (hShape : p.Shape (s p.number))
  (hNested : ∀ other v, p.Holds (s p.number) other v → Conveyed P nested other v)

include hShape hNested

theorem carriesBack_map {key value : MapSide} (content : p.content = .map key value) :
    CarriesBack P nested p (p.value scope s) := by
  simp only [Property.Shape, content] at hShape
  obtain ⟨entries, hStored, keys, hPresent⟩ := hShape
  have hEntries : ∀ entry ∈ entries, ∃ part : Scalar × Part, (part.1, part.2.value) = entry ∧
      Alike P part.2.value part.2.back ∧ ∀ᶠ n in atTop, value.Carries (nested n) part.2 := by
    rintro ⟨k, v⟩ hMem
    obtain ⟨part, rfl, hPart⟩ := carries_entry (hPresent _ hMem).2 fun hMessage =>
      hNested _ _ (holds_entry content hMessage hStored hMem)
    exact ⟨(k, part), rfl, hPart⟩
  obtain ⟨parts, rfl, hParts⟩ := exists_map hEntries
  have hKeys : ∀ entry ∈ parts, entry.1 ≠ .null := fun entry hMem =>
    (hPresent _ (List.mem_map.2 ⟨entry, hMem, rfl⟩)).1
  rw [List.map_map] at keys
  rw [Property.value_of_some hStored]
  refine ⟨parts.map (entryRecord p.number key value), _,
    Alike.entries fun entry hMem => (hParts entry hMem).1, rfl, ?_⟩
  -- there are finitely many entries, so one bound is large enough for all
  have hCarries := eventually_forall_mem fun entry hMem => (hParts entry hMem).2
  exact hCarries.mono fun n h => .map content keys hKeys h

theorem carriesBack_messages {other write : String} (content : p.content = .message other true write) :
    CarriesBack P nested p (p.value scope s) := by
  simp only [Property.Shape, content] at hShape
  obtain ⟨items, hStored⟩ := hShape
  have hItems : ∀ v ∈ items, ∃ part : Part, part.value = v ∧ Alike P part.value part.back ∧
      ∀ᶠ n in atTop, nested n other part.value part.records part.back := by
    exact fun v hMem => (hNested other v (holds_item content hStored hMem)).part
  obtain ⟨parts, rfl, hParts⟩ := exists_map hItems
  rw [Property.value_of_some hStored]
  refine ⟨parts.map fun part => (p.number, "Message", .buffer part.records), _,
    Alike.parts fun part hMem => (hParts part hMem).1, rfl, ?_⟩
  have hNests := eventually_forall_mem fun part hMem => (hParts part hMem).2
  exact hNests.mono fun n h => .messages content h

omit hShape in
theorem carriesBack_message {other write : String} (content : p.content = .message other false write)
    (hWritten : p.written scope s) : CarriesBack P nested p (p.value scope s) := by
  have hSome := value_of_written (by rw [Property.isMap, content]) hWritten
  cases hStored : s p.number with
  | none =>
      rw [Property.value_of_none hStored, Property.default, content] at hSome
      exact absurd rfl hSome
  | some v =>
      obtain ⟨records, back, hAlike, hPresent, hNests⟩ :=
        hNested other v (holds_message content hStored)
      rw [Property.value_of_some hStored]
      exact ⟨_, back, hAlike, hPresent, hNests.mono fun n h => .message content h⟩

omit hNested in
theorem carriesBack_scalar {repeated packed : Bool} {write read : String}
    (content : p.content = .scalar repeated packed write read) (hWritten : p.written scope s) :
    CarriesBack P nested p (p.value scope s) := by
  cases repeated with
  | true =>
      simp only [Property.Shape, content] at hShape
      obtain ⟨items, hStored⟩ := hShape
      rw [Property.value_of_some hStored]
      cases packed with
      | true => exact ⟨_, _, .same _, rfl, .of_forall fun n => .packed content⟩
      | false => exact ⟨_, _, .same _, rfl, .of_forall fun n => .list content⟩
  | false =>
      have hSome := value_of_written (by rw [Property.isMap, content]) hWritten
      have hPresent : (p.value scope s).isMissing = false := by
        cases hStored : s p.number with
        | none =>
            rw [Property.value_of_none hStored] at hSome ⊢
            exact (default_present scope p).resolve_left hSome
        | some v =>
            rw [Property.value_of_some hStored]
            exact shape_present (p := p) (hStored ▸ hShape)
      exact ⟨_, _, .same _, hPresent, .of_forall fun n => .scalar content hPresent⟩

/-- The value of a property that is written is carried. -/
theorem carried_of_shape (hWritten : p.written scope s) :
    CarriesBack P nested p (p.value scope s) := by
  cases hContent : p.content with
  | map key value => exact carriesBack_map hShape hNested hContent
  | message other repeated write =>
      cases repeated with
      | true => exact carriesBack_messages hShape hNested hContent
      | false => exact carriesBack_message hNested hContent hWritten
  | scalar repeated packed write read => exact carriesBack_scalar hShape hContent hWritten

end Carried

/-! ## Restored properties -/

section Restored

variable (hPlan : scope.plan m = .ok plan) (legal : m.Legal scope) (hp : p ∈ plan.properties)
  {back : Property → Value}

include hPlan legal hp

theorem value_kept (hPresent : (back p).isMissing = false) (hWritten : p.written scope s)
    (hKept : ¬ plan.Replaced scope s p) :
    p.value scope (plan.restored scope s back) = back p := by
  rw [Property.value, restored_kept hPlan legal hp hWritten hKept, Value.populated, hPresent]
  rfl

/-- What is dropped is no list and no map, so the new instance does not hold it. -/
theorem restored_dropped_none (hShape : p.Shape (s p.number))
    (hDropped : p.written scope s = false ∨ plan.Replaced scope s p) :
    plan.restored scope s back p.number = none := by
  have hSingle : ¬ (p.slot.isList ∨ p.isMap) := by
    intro hKind
    rcases hDropped with hUnwritten | ⟨-, -, -, q, -, hBeside, -⟩
    · rw [written_of_kind hPlan hp hShape hKind] at hUnwritten
      cases hUnwritten
    · exact hBeside.1 (oneof_eq_none hPlan hp legal hKind)
  rw [not_or] at hSingle
  rw [restored_dropped hPlan legal hp hDropped, Property.initial, if_neg hSingle.1,
    if_neg hSingle.2]

theorem value_dropped (hShape : p.Shape (s p.number))
    (hDropped : p.written scope s = false ∨ plan.Replaced scope s p) :
    p.value scope (plan.restored scope s back) = p.default scope := by
  exact Property.value_of_none (restored_dropped_none hPlan legal hp hShape hDropped)

/-- A member of a oneof that is not lost is populated again exactly when it was. -/
theorem isSome_restored (hShape : p.Shape (s p.number)) (hOneof : p.slot.oneof ≠ none)
    (hDefault : p.default scope = .undefined)
    (hPopulated : (s p.number).isSome → p.written scope s ∧ ¬ plan.Replaced scope s p)
    (hPresent : p.written scope s → (back p).isMissing = false) :
    (plan.restored scope s back p.number).isSome = (s p.number).isSome := by
  cases hStored : s p.number with
  | some v =>
      obtain ⟨hWritten, hKept⟩ := hPopulated (by rw [hStored]; rfl)
      rw [restored_kept hPlan legal hp hWritten hKept, Value.populated, hPresent hWritten]
      rfl
  | none =>
      have hMap := (single_of_oneof hPlan hp legal hOneof).2
      have hUnwritten : p.written scope s = false := by
        by_contra hWritten
        exact (written_default hMap hStored).1 (Bool.eq_true_of_not_eq_false hWritten) hDefault
      rw [restored_dropped_none hPlan legal hp hShape (Or.inl hUnwritten)]

end Restored

/-- The restored instance is alike when the values that were read back are. -/
theorem alike_restored (hClass : ClassOf P typeName scope m plan) (legal : m.Legal scope)
    (hShape : ∀ p ∈ plan.properties, p.Shape (s p.number)) (hExclusive : plan.Exclusive s)
    {back : Property → Value}
    (hBack : ∀ p ∈ plan.properties, p.written scope s →
      Alike P (p.value scope s) (back p) ∧ (back p).isMissing = false) :
    Alike P (.instance typeName s) (.instance typeName (plan.restored scope s back)) := by
  have hPlan := hClass.planned
  have hPopulated {p : Property} (hp : p ∈ plan.properties) (hSome : (s p.number).isSome)
      (hKept : ¬ plan.Lost scope s p) : p.written scope s ∧ ¬ plan.Replaced scope s p :=
    written_of_populated hPlan legal hp (hShape p hp) hExclusive hSome hKept
  refine .instance hClass ?_ ?_ ?_
  · intro p hp hKept
    by_cases hRead : p.written scope s ∧ ¬ plan.Replaced scope s p
    · obtain ⟨hAlike, hPresent⟩ := hBack p hp hRead.1
      rw [value_kept hPlan legal hp hPresent hRead.1 hRead.2]
      exact hAlike
    · -- what is not read back held nothing
      have hNone : s p.number = none := by
        by_contra hSome
        exact hRead (hPopulated hp (Option.isSome_iff_ne_none.2 hSome) hKept)
      have hDropped : p.written scope s = false ∨ plan.Replaced scope s p := by
        by_cases hWritten : p.written scope s
        · exact Or.inr (not_not.1 fun h => hRead ⟨hWritten, h⟩)
        · exact Or.inl (Bool.eq_false_iff.2 hWritten)
      rw [value_dropped hPlan legal hp (hShape p hp) hDropped, Property.value_of_none hNone]
      exact .same _
  · intro p hp hLost
    exact value_dropped hPlan legal hp (hShape p hp)
      (dropped_of_lost hPlan legal hp hExclusive hLost)
  · intro index hGroup
    have hSame : ∀ number ∈ (plan.group index).map Property.number,
        (plan.restored scope s back number).isSome = (s number).isSome := by
      intro number hMem
      obtain ⟨p, hpGroup, rfl⟩ := List.mem_map.1 hMem
      obtain ⟨hp, hOneof⟩ := mem_group.1 hpGroup
      obtain ⟨hDefault, hKept⟩ := hGroup p hpGroup
      exact isSome_restored hPlan legal hp (hShape p hp) (by simp [hOneof]) hDefault
        (fun hSome => hPopulated hp hSome hKept) fun hWritten => (hBack p hp hWritten).2
    exact Fields.caseOf_congr hSame

/-! ## Instances -/

/-- Whatever an instance contains is conveyed, so the values of its properties are carried. -/
theorem exists_carries (hClass : ClassOf P typeName scope m plan)
    (hShape : ∀ p ∈ plan.properties, p.Shape (s p.number))
    (hNested : ∀ p ∈ plan.properties, ∀ other v, p.Holds (s p.number) other v →
      Conveyed P nested other v) :
    ∃ records back, (∀ p ∈ plan.properties, p.written scope s →
        Alike P (p.value scope s) (back p) ∧ (back p).isMissing = false) ∧
      ∀ᶠ n in atTop, Carries scope plan (nested n) s records back := by
  have hPlan := hClass.planned
  have hEach : ∀ p, ∃ records back, p ∈ plan.properties ∧ p.written scope s →
      Alike P (p.value scope s) back ∧ back.isMissing = false ∧
        ∀ᶠ n in atTop, Carried (nested n) p (p.value scope s) records back := by
    intro p
    by_cases h : p ∈ plan.properties ∧ p.written scope s
    · obtain ⟨records, back, hCarried⟩ := carried_of_shape (hShape p h.1) (hNested p h.1) h.2
      exact ⟨records, back, fun _ => hCarried⟩
    · exact ⟨[], .undefined, fun h' => absurd h' h⟩
  choose records back hBack using hEach
  have hText : ∀ p ∈ plan.properties, p.isText →
      p.value scope s = .undefined ∨ ∃ text, p.value scope s = .string text := by
    intro p hp hIsText
    rw [Property.value]
    cases hStored : s p.number with
    | none =>
        rcases default_text scope hIsText with h | ⟨text, -, h⟩
        · exact Or.inl h
        · exact Or.inr ⟨text, h⟩
    | some v =>
        exact Or.inr (shape_text hPlan hClass.legal hp hIsText (hStored ▸ hShape p hp))
  have hAll : ∀ᶠ n in atTop, ∀ p ∈ plan.properties.filter (·.written scope s),
      Carried (nested n) p (p.value scope s) (records p) (back p) :=
    eventually_forall_mem fun p hp => (hBack p (List.mem_filter.1 hp)).2.2
  refine ⟨records, back, fun p hp hWritten =>
    ⟨(hBack p ⟨hp, hWritten⟩).1, (hBack p ⟨hp, hWritten⟩).2.1⟩, hAll.mono fun n h => ⟨hText, ?_⟩⟩
  exact fun p hp hWritten => h p (List.mem_filter.2 ⟨hp, hWritten⟩)

/-- Whatever an instance contains is written, so the instance is, and returns its records when it
is given no writer. -/
theorem writes_instance (hClass : ClassOf P typeName scope m plan)
    {records : Property → List Record} {back : Property → Value}
    (hCarries : ∀ᶠ n in atTop, Carries scope plan (writing P n) s records back) :
    ∀ᶠ n in atTop, Writes (P.invoke n) (.instance typeName s) (plan.recordsOf scope s records) ∧
      ∀ σ, P.invoke n (.method (.instance typeName s) "serialize" []) σ =
        some (.buffer (plan.recordsOf scope s records),
          { σ with output := plan.recordsOf scope s records }) := by
  -- a getter is one call deeper
  obtain ⟨bound, hBound⟩ := eventually_atTop.1 hCarries
  refine eventually_atTop.2 ⟨bound + 2, fun n hn => ?_⟩
  obtain ⟨k, rfl⟩ : ∃ k, n = k + 2 := ⟨n - 2, by omega⟩
  exact serialize_run hClass (accesses_invoke hClass k) (hBound (k + 1) (by omega)) id

/-- Every instance is written. -/
theorem writes_of_fits {v : Value} (fits : Fits P typeName v) :
    Conveyed P (writing P) typeName v := by
  induction fits with
  | intro known shape exclusive nested ih =>
      obtain ⟨records, back, -, hCarries⟩ := exists_carries known shape ih
      exact ⟨_, _, .same _, rfl, (writes_instance known hCarries).mono fun n h => h.1⟩

/-- An instance returns its records. -/
theorem serialize_of_fits {v : Value} (fits : Fits P typeName v) :
    ∃ records, ∀ σ, P.Answers (.method v "serialize" []) σ (.buffer records)
      { σ with output := records } := by
  cases fits with
  | intro known shape exclusive nested =>
      obtain ⟨records, back, -, hCarries⟩ := exists_carries known shape fun p hp other v hHolds =>
        writes_of_fits (nested p hp other v hHolds)
      exact ⟨_, fun σ => (writes_instance known hCarries).mono fun n h => h.2 σ⟩

/-- Whatever an instance contains is written and read back, so the instance is, with a writer and a
reader that are shared and without. -/
theorem runs_instance (hClass : ClassOf P typeName scope m plan)
    (readable : Readable P typeName scope m)
    (hShape : ∀ p ∈ plan.properties, p.Shape (s p.number)) (hExclusive : plan.Exclusive s)
    (hNested : ∀ p ∈ plan.properties, ∀ other v, p.Holds (s p.number) other v →
      Conveyed P (nests P) other v) :
    ∃ records t, Alike P (.instance typeName s) (.instance typeName t) ∧
      ∀ᶠ n in atTop, nests P n typeName (.instance typeName s) records (.instance typeName t) ∧
        (∀ σ, P.invoke n (.method (.instance typeName s) "serialize" []) σ =
          some (.buffer records, { σ with output := records })) ∧
        ∀ σ, P.invoke n (.static typeName "deserialize" [.buffer records]) σ =
          some (.instance typeName t, σ.before []) := by
  obtain ⟨records, back, hBack, hCarries⟩ := exists_carries hClass hShape hNested
  refine ⟨plan.recordsOf scope s records, plan.restored scope s back,
    alike_restored hClass hClass.legal hShape hExclusive hBack, ?_⟩
  -- two calls are nested in reading, and the loop takes a turn for every record
  obtain ⟨bound, hBound⟩ := eventually_atTop.1 hCarries
  refine eventually_atTop.2
    ⟨bound + (plan.recordsOf scope s records).length + 3, fun n hn => ?_⟩
  obtain ⟨k, rfl⟩ : ∃ k, n = k + 3 := ⟨n - 3, by omega⟩
  have hWithin := hBound (k + 2) (by omega)
  obtain ⟨hWrites, hBuffer⟩ := serialize_run hClass (accesses_invoke hClass (k + 1)) hWithin
    fun h => h.1
  obtain ⟨hReads, hFromBuffer⟩ :=
    deserialize_run hClass readable hWithin (fun h => h.2) (by omega)
  exact ⟨⟨hWrites, hReads⟩, hBuffer, hFromBuffer⟩

/-- Every instance of a class that can be read comes back. -/
theorem nests_of_fits {v : Value} (fits : Fits P typeName v)
    (readable : P.Throughout typeName (Readable P)) : Conveyed P (nests P) typeName v := by
  induction fits with
  | intro known shape exclusive nested ih =>
      obtain ⟨records, t, hAlike, hRuns⟩ := runs_instance known (readable.here known.source) shape
        exclusive fun p hp other v hHolds =>
          ih p hp other v hHolds (readable.inside (hasField_of_holds known hp hHolds))
      exact ⟨records, _, hAlike, rfl, hRuns.mono fun n h => h.1⟩

/-- **Reading what an instance has written gives an instance that is alike**, where the classes of
the messages inside can be read. -/
theorem deserialize_serialize (readable : P.Throughout typeName (Readable P)) {v : Value}
    (fits : Fits P typeName v) :
    ∃ records back, Alike P v back ∧ ∀ σ,
      P.Answers (.method v "serialize" []) σ (.buffer records) { σ with output := records } ∧
      P.Answers (.static typeName "deserialize" [.buffer records]) σ back (σ.before []) := by
  cases fits with
  | intro known shape exclusive nested =>
      obtain ⟨records, t, hAlike, hRuns⟩ := runs_instance known (readable.here known.source) shape
        exclusive fun p hp other v hHolds => nests_of_fits (nested p hp other v hHolds)
          (readable.inside (hasField_of_holds known hp hHolds))
      exact ⟨records, _, hAlike, fun σ =>
        ⟨hRuns.mono fun n h => h.2.1 σ, hRuns.mono fun n h => h.2.2 σ⟩⟩

end RoundTrip

/-! ## Trees -/

/-- The entries of a map from texts to trees. -/
def treeEntry : MessageDescriptor :=
  ⟨some "OthersEntry",
    [⟨some "key", some 1, .optional, some 9, none, "", none, false, false, false⟩,
      ⟨some "value", some 2, .optional, some 11, some ".Tree", "", none, false, false, false⟩],
    [], [], [], true⟩

/-- A message with a text, a packed list, a message of its own type and a map of such messages. -/
def tree : MessageDescriptor :=
  ⟨some "Tree",
    [⟨some "label", some 1, .optional, some 9, none, "", none, false, false, false⟩,
      ⟨some "sizes", some 2, .repeated, some 5, none, "", none, false, true, false⟩,
      ⟨some "first", some 3, .optional, some 11, some ".Tree", "", none, false, false, false⟩,
      ⟨some "others", some 4, .repeated, some 11, some ".Tree.OthersEntry", "", none, false, false,
        false⟩],
    [treeEntry], [], [], false⟩

/-- The file that declares trees. -/
def treeFile : FileDescriptor :=
  { FileDescriptor.blank with name := "tree.proto", syntaxName := "proto2", messages := [tree] }

/-- What is known about the file. -/
def treeRegistry : Registry := (Registry.ofFiles [treeFile]).toOption.getD .empty

/-- The program of the class of trees. -/
def treeProgram : Program :=
  ⟨[treeFile], by decide +kernel, treeRegistry, rfl, .standard, none⟩

/-- The scope in which trees are generated. -/
def treeScope : Scope := treeFile.scope treeRegistry

theorem source_tree {typeName : String} {scope : Scope} {m : MessageDescriptor}
    (h : treeProgram.source? typeName = some (scope, m)) :
    typeName = ".Tree" ∧ scope = treeScope ∧ m = tree := by
  obtain ⟨file, hFile, path, hDeclared, rfl, rfl⟩ := exists_declared h
  obtain rfl := List.mem_singleton.1 hFile
  have hDeclarations : treeFile.declarations =
      [⟨["Tree"], .message tree⟩, ⟨["Tree", "OthersEntry"], .mapEntry treeEntry⟩] := rfl
  rw [hDeclarations] at hDeclared
  rcases List.mem_pair.1 hDeclared with hTree | hEntry
  · cases hTree
    exact ⟨rfl, rfl, rfl⟩
  · cases hEntry

theorem legal_tree : tree.Legal treeScope where
  names := ⟨by decide, by decide, by decide⟩
  numbers := by
    rw [MessageDescriptor.DistinctNumbers]
    decide
  oneofs := by
    rw [MessageDescriptor.OneofsInRange]
    decide
  members := by decide
  maps := by decide
  strings := by decide
  mapStrings := by decide

/-- The properties of a tree. -/
def treePlan : Plan := (treeScope.plan tree).toOption.getD ⟨"", [], []⟩

theorem class_tree : ClassOf treeProgram ".Tree" treeScope tree treePlan where
  source := rfl
  planned := rfl
  legal := legal_tree
  named := by decide +kernel
  runtime := rfl
  globals := ⟨rfl, fun _ => by decide +kernel⟩

/-- The only messages in trees are trees. -/
theorem messageType?_tree : ∀ f ∈ tree.fields, ∀ other, treeScope.messageType? f = some other →
    other = ".Tree" := by
  decide

/-- In a method of the class of trees, only a variable called `Tree` would stand in the way. -/
theorem makes_tree {method : String} {own : List String} {taken : FieldDescriptor → List String}
    (hMethod : treeProgram.overwrites ".Tree" method = false) (hOwn : "Tree" ∉ own)
    (hTaken : ∀ f ∈ tree.fields, "Tree" ∉ taken f) :
    Makes treeProgram ".Tree" treeScope tree method own taken where
  method := hMethod
  array := rfl
  own := hOwn
  reached f hf other hOther := by
    obtain rfl := messageType?_tree f hf other hOther
    rfl
  free f hf other hOther first hFirst := by
    obtain rfl := messageType?_tree f hf other hOther
    have hTree : first = "Tree" := (Option.some.inj hFirst).symm
    exact hTree ▸ hTaken f hf

theorem readable_tree : treeProgram.Throughout ".Tree" (Readable treeProgram) := by
  rintro other - scope m hSource
  obtain ⟨rfl, rfl, rfl⟩ := source_tree hSource
  exact makes_tree rfl (by decide) (by decide +kernel)

theorem fits_present {v : Value} (h : Fits treeProgram ".Tree" v) : v.isMissing = false := by
  cases h
  rfl

theorem fits_tree {s : Fields} {text : String} {items : List Value}
    {entries : List (Scalar × Value)} (label : s 1 = some (.string text))
    (sizes : s 2 = some (.list items)) (first : ∀ v, s 3 = some v → Fits treeProgram ".Tree" v)
    (others : s 4 = some (.map entries)) (keys : (entries.map Prod.fst).Nodup)
    (values : ∀ entry ∈ entries, entry.1 ≠ .null ∧ Fits treeProgram ".Tree" entry.2) :
    Fits treeProgram ".Tree" (.instance ".Tree" s) := by
  refine .intro class_tree ?_ ?_ ?_
  · refine List.forall_mem_cons.2 ⟨?_, List.forall_mem_cons.2 ⟨⟨items, sizes⟩,
      List.forall_mem_cons.2 ⟨fun v h => fits_present (first v h), List.forall_mem_cons.2
        ⟨⟨entries, others, keys, fun entry hMem => ?_⟩, by simp⟩⟩⟩⟩
    · intro v h
      obtain rfl := Option.some.inj (label.symm.trans h)
      exact ⟨rfl, fun _ => ⟨text, rfl⟩⟩
    · exact ⟨(values entry hMem).1, fits_present (values entry hMem).2⟩
  · intro p hp q _ hBeside
    cases hOneof : p.slot.oneof with
    | none => exact absurd hOneof hBeside.1
    | some index =>
        exact absurd (oneof_lt class_tree.planned legal_tree.oneofs hp hOneof) (Nat.not_lt_zero _)
  · refine List.forall_mem_cons.2 ⟨fun _ _ h => h.elim, List.forall_mem_cons.2
      ⟨fun _ _ h => h.elim, List.forall_mem_cons.2 ⟨?_, List.forall_mem_cons.2 ⟨?_, by simp⟩⟩⟩⟩
    · rintro other v ⟨rfl, h⟩
      exact first v h
    · rintro other v ⟨-, rfl, found, key, hFound, hMem⟩
      obtain rfl := Value.map.inj (Option.some.inj (others.symm.trans hFound))
      exact (values _ hMem).2

def leaf : Fields
  | 1 => some (.string "leaf")
  | 2 => some (.list [])
  | 4 => some (.map [])
  | _ => none

/-- A tree with a leaf as its first tree and another leaf in its map. -/
def root : Fields
  | 1 => some (.string "root")
  | 2 => some (.list [.int 3, .int 5])
  | 3 => some (.instance ".Tree" leaf)
  | 4 => some (.map [(.string "k", .instance ".Tree" leaf)])
  | _ => none

theorem fits_leaf : Fits treeProgram ".Tree" (.instance ".Tree" leaf) :=
  fits_tree rfl rfl (fun _ h => nomatch h) rfl List.nodup_nil (by simp)

theorem fits_root : Fits treeProgram ".Tree" (.instance ".Tree" root) := by
  refine fits_tree rfl rfl (fun v h => ?_) rfl (by simp) (by simpa using fits_leaf)
  obtain rfl := Option.some.inj h
  exact fits_leaf

theorem deserialize_serialize_root :
    treeProgram.Throughout ".Tree" (Readable treeProgram) ∧
      Fits treeProgram ".Tree" (.instance ".Tree" root) ∧
      ∃ records back, Alike treeProgram (.instance ".Tree" root) back ∧ ∀ σ,
        treeProgram.Answers (.method (.instance ".Tree" root) "serialize" []) σ (.buffer records)
          { σ with output := records } ∧
        treeProgram.Answers (.static ".Tree" "deserialize" [.buffer records]) σ back
          (σ.before []) :=
  ⟨readable_tree, fits_root, deserialize_serialize readable_tree fits_root⟩

/-! ## A message with the name of a variable -/

/-- A message that is called `message`, with a text. -/
def namedMessage : MessageDescriptor :=
  ⟨some "message",
    [⟨some "label", some 1, .optional, some 9, none, "", none, false, false, false⟩],
    [], [], [], false⟩

/-- The file that declares the message. -/
def namedFile : FileDescriptor :=
  { FileDescriptor.blank with
    name := "message.proto", syntaxName := "proto3", messages := [namedMessage] }

/-- What is known about the file. -/
def namedRegistry : Registry := Registry.empty.declare "message.proto" ".message"

/-- The program of the class of the message. -/
def namedProgram : Program :=
  ⟨[namedFile], by decide +kernel, namedRegistry, rfl, .standard, none⟩

/-- The scope in which the class is generated. -/
def namedScope : Scope := namedFile.scope namedRegistry

/-- The property of the text. -/
def labelProperty : Property :=
  ⟨⟨⟨some "label", some 1, .optional, some 9, none, "", none, false, false, false⟩,
    .scalar false false, true, none⟩, .named "string", .scalar false false "String" "String"⟩

def namedPlan : Plan := ⟨"message", [labelProperty], []⟩

theorem class_named : ClassOf namedProgram ".message" namedScope namedMessage namedPlan where
  source := rfl
  planned := rfl
  legal :=
    { names := ⟨by decide, by decide, by decide⟩
      numbers := by
        rw [MessageDescriptor.DistinctNumbers]
        decide
      oneofs := by
        rw [MessageDescriptor.OneofsInRange]
        decide
      members := by decide
      maps := by decide
      strings := by decide
      mapStrings := by decide }
  named := by decide +kernel
  runtime := rfl
  globals := ⟨rfl, fun hMap => absurd hMap (by decide)⟩

/-- The message with a text. -/
def greeting : Fields := fun number => if number = 1 then some (.string "hello") else none

theorem shape_greeting : ∀ p ∈ namedPlan.properties, p.Shape (greeting p.number) := by
  intro p hp
  obtain rfl := List.mem_singleton.1 hp
  intro v hStored
  obtain rfl := Option.some.inj hStored
  exact ⟨rfl, fun _ => ⟨_, rfl⟩⟩

theorem exclusive_greeting : namedPlan.Exclusive greeting := by
  intro p hp q hq _ _ _
  exact (List.mem_singleton.1 hp).trans (List.mem_singleton.1 hq).symm

theorem fits_greeting : Fits namedProgram ".message" (.instance ".message" greeting) := by
  refine .intro class_named shape_greeting exclusive_greeting fun p hp other v hHolds => ?_
  obtain rfl := List.mem_singleton.1 hp
  exact hHolds.elim

/-- **What an instance of `message` writes is never read back**: the variable of the reading method
hides the class. -/
theorem deserialize_never_reads_message :
    Fits namedProgram ".message" (.instance ".message" greeting) ∧ ∃ records,
      (∀ σ, namedProgram.Answers (.method (.instance ".message" greeting) "serialize" []) σ
        (.buffer records) { σ with output := records }) ∧
      ∀ n σ,
        namedProgram.invoke n (.static ".message" "deserialize" [.buffer records]) σ = none := by
  obtain ⟨records, hSerialized⟩ := serialize_of_fits fits_greeting
  exact ⟨fits_greeting, records, hSerialized, fun n σ =>
    deserialize_taken class_named (by decide) n _⟩

end Protoscribe

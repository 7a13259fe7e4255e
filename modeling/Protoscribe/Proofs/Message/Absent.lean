import Protoscribe.Proofs.Message.Complete
import Protoscribe.Proofs.Message.Exclusive

set_option autoImplicit false

/-! # Optional fields that are not populated

An optional field that is not populated is meant to be left out of what an instance writes and of
its plain object. Main statement: `absent_iff_default`, it is left out of both exactly when it has
no declared default. The guards of both methods test what the getter gives, and the getter of a
field with a declared default gives the default, so such a field is written although nothing was
ever stored in it, also next to the populated member of its oneof (`absent_member_written`).

What an instance writes has a record of a single field exactly when the field is written
(`exists_serialized`), and its plain object has a property exactly when the property is shown
(`exists_plain`).
-/

namespace Protoscribe

open TypeScript Evaluation Filter

/-! ## Declared defaults -/

/-- Whether a field has a declared default that its getter gives; bytes and messages have none. -/
def FieldDescriptor.hasDefault (f : FieldDescriptor) : Bool :=
  f.defaultValue ≠ "" && f.type ≠ .bytes && f.type ≠ .message && f.type ≠ .group

/-- The instances of a type that become plain objects: the keys of a map are of their type, and a
message that is always present is there, in the messages inside as well. -/
inductive Plainable (P : Program) : String → Value → Prop
  | intro {typeName : String} {scope : Scope} {m : MessageDescriptor} {plan : Plan} {s : Fields}
      (known : ClassOf P typeName scope m plan)
      (shape : ∀ p ∈ plan.properties, p.Shape (s p.number))
      (keys : ∀ p ∈ plan.properties, ∀ key value entries, p.content = .map key value →
        s p.number = some (.map entries) → ∀ entry ∈ entries, key.descriptor.HoldsKey entry.1)
      (there : ∀ p ∈ plan.properties, ∀ other write, p.content = .message other false write →
        p.optional = false → (s p.number).isSome)
      (nested : ∀ p ∈ plan.properties, ∀ other v, p.Holds (s p.number) other v →
        Plainable P other v) : Plainable P typeName (.instance typeName s)

/-- A property of a field that is optional, holds one value and is not populated. -/
def Property.Absent (p : Property) (s : Fields) : Prop :=
  p.optional ∧ p.slot.isList = false ∧ p.isMap = false ∧ s p.number = none

section Absent

variable {P : Program} {typeName : String} {scope : Scope} {m : MessageDescriptor} {plan : Plan}
  {s : Fields} {p : Property}

theorem declaredDefault_isSome (scope : Scope) (f : FieldDescriptor) :
    (Access.declaredDefault? scope f).isSome = f.hasDefault := by
  rw [Access.declaredDefault?, FieldDescriptor.hasDefault]
  by_cases hNone : f.defaultValue = ""
  · simp [hNone]
  · rw [if_neg hNone]
    cases f.type <;> simp [hNone]

theorem constantValue_ne_undefined (e : Expr) : constantValue e ≠ .undefined := by
  cases e with
  | number text =>
      rw [constantValue, Value.ofNumber]
      split
      all_goals
        intro h
        cases h
  | _ =>
      intro h
      cases h

/-- The getter of a field that is not populated gives something exactly when a default is
declared. -/
theorem default_ne_undefined (hPlan : scope.plan m = .ok plan) (legal : m.Legal scope)
    (hp : p ∈ plan.properties) (hMap : p.isMap = false) :
    p.default scope ≠ .undefined ↔ p.slot.descriptor.hasDefault := by
  rw [Property.default]
  cases hContent : p.content with
  | map key value => simp [Property.isMap, hContent] at hMap
  | message other repeated write =>
      obtain ⟨-, -, hMessage, -⟩ := message_content hPlan hp legal hContent
      have hType : p.slot.descriptor.type = .message := by
        simpa [FieldDescriptor.isMessage] using hMessage
      simp [FieldDescriptor.hasDefault, hType]
  | scalar repeated packed write read =>
      rw [← declaredDefault_isSome scope]
      cases hDefault : Access.declaredDefault? scope p.slot.descriptor with
      | none => simp
      | some e => simpa using constantValue_ne_undefined e

/-- Nothing is given for an absent property but its declared default. -/
theorem written_of_absent (hPlan : scope.plan m = .ok plan) (legal : m.Legal scope)
    (hp : p ∈ plan.properties) (hAbsent : p.Absent s) :
    p.written scope s ↔ p.slot.descriptor.hasDefault := by
  obtain ⟨-, -, hMap, hNone⟩ := hAbsent
  exact (written_default hMap hNone).trans (default_ne_undefined hPlan legal hp hMap)

theorem shown_of_absent (hPlan : scope.plan m = .ok plan) (legal : m.Legal scope)
    (hp : p ∈ plan.properties) (hAbsent : p.Absent s) :
    p.shown scope s ↔ p.slot.descriptor.hasDefault := by
  obtain ⟨hOptional, -, hMap, hNone⟩ := hAbsent
  rw [← default_ne_undefined hPlan legal hp hMap, shown_optional hOptional hMap,
    Property.value_of_none hNone]
  rcases default_present scope p with hDefault | hDefault
  · simp [hDefault, Value.isMissing]
  · have hSome : p.default scope ≠ .undefined := fun h => by
      rw [h] at hDefault
      cases hDefault
    simp [hDefault, hSome]

/-! ## The records of an instance -/

/-- The records that carry the value of a property have its number. -/
theorem number_of_carried {nested : Nesting} {v back : Value} {records : List Record}
    (h : Carried nested p v records back) : ∀ record ∈ records, record.1 = p.number := by
  intro record hMem
  cases h with
  | scalar => rw [List.mem_singleton.1 hMem]
  | list =>
      obtain ⟨item, -, rfl⟩ := List.mem_map.1 hMem
      rfl
  | @packed _ _ items =>
      cases items with
      | nil => cases hMem
      | cons item items => rw [List.mem_singleton.1 hMem]
  | message => rw [List.mem_singleton.1 hMem]
  | messages =>
      obtain ⟨part, -, rfl⟩ := List.mem_map.1 hMem
      rfl
  | map =>
      obtain ⟨entry, -, rfl⟩ := List.mem_map.1 hMem
      rfl

/-- One value is carried by a record. -/
theorem records_of_single (hPlan : scope.plan m = .ok plan) (hp : p ∈ plan.properties)
    (hList : p.slot.isList = false) (hMap : p.isMap = false) {nested : Nesting} {v back : Value}
    {records : List Record} (h : Carried nested p v records back) : records ≠ [] := by
  rw [isList_eq hPlan hp] at hList
  rw [Property.isMap] at hMap
  cases h with
  | scalar => simp
  | list content => simp [content] at hList
  | packed content => simp [content] at hList
  | message => simp
  | messages content => simp [content] at hList
  | map content => simp [content] at hMap

/-- **An instance writes a record of a single field exactly when the field is written.** -/
theorem exists_serialized (hClass : ClassOf P typeName scope m plan)
    (fits : Fits P typeName (.instance typeName s)) :
    ∃ records, (∀ σ, P.Answers (.method (.instance typeName s) "serialize" []) σ
        (.buffer records) { σ with output := records }) ∧
      ∀ p ∈ plan.properties, p.slot.isList = false → p.isMap = false →
        (p.number ∈ records.map Prod.fst ↔ p.written scope s) := by
  cases fits with
  | intro known shape exclusive nested =>
      cases known.source.symm.trans hClass.source
      cases known.planned.symm.trans hClass.planned
      have hPlan := hClass.planned
      have legal := hClass.legal
      obtain ⟨records, back, -, hCarries⟩ := exists_carries hClass shape
        fun p hp other v hHolds => writes_of_fits (nested p hp other v hHolds)
      -- the records are those of any bound that is large enough
      obtain ⟨bound, hBound⟩ := eventually_atTop.1 hCarries
      refine ⟨plan.recordsOf scope s records, fun σ => ?_, fun p hp hList hMap => ?_⟩
      · exact (writes_instance hClass hCarries).mono fun n h => h.2 σ
      · have hCarried {q : Property} (hq : q ∈ plan.properties) (hWritten : q.written scope s) :=
          (hBound bound le_rfl).carried q hq hWritten
        constructor
        · intro hMem
          obtain ⟨record, hRecord, hNumber⟩ := List.mem_map.1 hMem
          obtain ⟨q, hq, hOfQ⟩ := List.mem_flatMap.1 hRecord
          obtain ⟨hqMem, hWritten⟩ := List.mem_filter.1 hq
          have hSame : q.number = p.number :=
            (number_of_carried (hCarried hqMem hWritten) record hOfQ).symm.trans hNumber
          -- numbers are distinct, so the property that wrote the record is `p`
          rwa [← eq_of_number_eq hPlan legal.numbers hqMem hp hSame]
        · intro hWritten
          obtain ⟨record, hRecord⟩ := List.exists_mem_of_ne_nil _
            (records_of_single hPlan hp hList hMap (hCarried hp hWritten))
          exact List.mem_map.2 ⟨record, List.mem_flatMap.2
            ⟨p, List.mem_filter.2 ⟨hp, hWritten⟩, hRecord⟩,
            number_of_carried (hCarried hp hWritten) record hRecord⟩

/-! ## The plain object of an instance -/

/-- An instance of a type becomes a plain object. -/
def BecomesPlain (P : Program) (typeName : String) (v : Value) : Prop :=
  ∃ plain, ∀ᶠ n in atTop, Plains (P.invoke n) typeName v plain

theorem exists_converts {value : MapSide} {v : Value}
    (hNested : value.descriptor.isMessage → BecomesPlain P value.descriptor.typeName v) :
    ∃ plain, ∀ᶠ n in atTop, value.Converts (Plains (P.invoke n)) v plain := by
  by_cases hMessage : value.descriptor.isMessage
  · obtain ⟨plain, hPlain⟩ := hNested hMessage
    refine ⟨plain, hPlain.mono fun n h => ?_⟩
    rwa [MapSide.Converts, if_pos hMessage]
  · refine ⟨v, .of_forall fun n => ?_⟩
    rw [MapSide.Converts, if_neg hMessage]

/-- A map becomes a plain object when its values do. -/
theorem exists_converted_map {key value : MapSide} {entries : List (Scalar × Value)}
    (content : p.content = .map key value) (distinct : (entries.map Prod.fst).Nodup)
    (keys : ∀ entry ∈ entries, key.descriptor.HoldsKey entry.1)
    (hNested : ∀ entry ∈ entries, value.descriptor.isMessage →
      BecomesPlain P value.descriptor.typeName entry.2) :
    ∃ plain, ∀ᶠ n in atTop, Converted (Plains (P.invoke n)) p (.map entries) plain := by
  -- an entry is kept together with the text of its key and the plain value that stands for it
  have hTargets : ∀ entry ∈ entries, ∃ part : Converted.Entry, (part.key, part.live) = entry ∧
      (key.descriptor.HoldsKey part.key ∧ part.key.keyText = some part.text) ∧
      ∀ᶠ n in atTop, value.Converts (Plains (P.invoke n)) part.live part.plain := by
    rintro ⟨k, v⟩ hMem
    obtain ⟨text, hText⟩ := exists_keyText (keys _ hMem)
    obtain ⟨plain, hPlain⟩ := exists_converts (hNested _ hMem)
    exact ⟨⟨k, text, v, plain⟩, rfl, ⟨keys _ hMem, hText⟩, hPlain⟩
  obtain ⟨parts, rfl, hParts⟩ := exists_map hTargets
  rw [List.map_map] at distinct
  have hPlains := eventually_forall_mem fun part hMem => (hParts part hMem).2
  exact ⟨_, hPlains.mono fun n h => .map content (fun part hMem => (hParts part hMem).1) distinct h⟩

/-- A message that is shown is there: without one the getter gives nothing. -/
theorem message_of_shown {other write : String} (content : p.content = .message other false write)
    (hThere : p.optional = false → (s p.number).isSome) (hShown : p.shown scope s) :
    (s p.number).isSome := by
  cases hOptional : p.optional with
  | false => exact hThere hOptional
  | true =>
      have hMap : p.isMap = false := by rw [Property.isMap, content]
      rw [shown_optional hOptional hMap] at hShown
      by_contra hNone
      rw [Property.value_of_none (Option.not_isSome_iff_eq_none.1 hNone), Property.default,
        content] at hShown
      cases hShown

/-- What is shown of a property becomes a part of a plain object when the messages in it do. -/
theorem exists_converted (hShape : p.Shape (s p.number))
    (hKeys : ∀ key value entries, p.content = .map key value →
      s p.number = some (.map entries) → ∀ entry ∈ entries, key.descriptor.HoldsKey entry.1)
    (hThere : ∀ other write, p.content = .message other false write → p.optional = false →
      (s p.number).isSome)
    (hShown : p.shown scope s)
    (hNested : ∀ other v, p.Holds (s p.number) other v → BecomesPlain P other v) :
    ∃ plain, ∀ᶠ n in atTop, Converted (Plains (P.invoke n)) p (p.value scope s) plain := by
  cases hContent : p.content with
  | map key value =>
      simp only [Property.Shape, hContent] at hShape
      obtain ⟨entries, hStored, hDistinct, -⟩ := hShape
      rw [Property.value_of_some hStored]
      refine exists_converted_map hContent hDistinct (hKeys key value entries hContent hStored) ?_
      exact fun entry hMem hMessage =>
        hNested _ entry.2 (holds_entry hContent hMessage hStored hMem)
  | message other repeated write =>
      simp only [Property.Shape, hContent] at hShape
      cases repeated with
      | true =>
          obtain ⟨items, hStored⟩ := hShape
          have hItems : ∀ v ∈ items, BecomesPlain P other v := fun v hMem =>
            hNested other v (holds_item hContent hStored hMem)
          choose! plain hPlain using hItems
          rw [Property.value_of_some hStored, ← items.map_id]
          exact ⟨_, (eventually_forall_mem hPlain).mono fun n h => .items hContent h⟩
      | false =>
          obtain ⟨v, hStored⟩ := Option.isSome_iff_exists.1
            (message_of_shown hContent (hThere other write hContent) hShown)
          obtain ⟨plain, hPlain⟩ := hNested other v (holds_message hContent hStored)
          rw [Property.value_of_some hStored]
          exact ⟨plain, hPlain.mono fun n h => .message hContent h⟩
  | scalar repeated packed write read => exact ⟨_, .of_forall fun n => .scalar hContent⟩

/-- An instance becomes the plain object of what it shows when the messages in it do. -/
theorem exists_object (hClass : ClassOf P typeName scope m plan)
    (hShape : ∀ p ∈ plan.properties, p.Shape (s p.number))
    (hKeys : ∀ p ∈ plan.properties, ∀ key value entries, p.content = .map key value →
      s p.number = some (.map entries) → ∀ entry ∈ entries, key.descriptor.HoldsKey entry.1)
    (hThere : ∀ p ∈ plan.properties, ∀ other write, p.content = .message other false write →
      p.optional = false → (s p.number).isSome)
    (hNested : ∀ p ∈ plan.properties, ∀ other v, p.Holds (s p.number) other v →
      BecomesPlain P other v) :
    ∃ plain : Property → Value, ∀ᶠ n in atTop, Plains (P.invoke n) typeName (.instance typeName s)
      (.record ((plan.plainProperties scope s).map fun p => (p.name, plain p))) := by
  have hEach : ∀ p ∈ plan.plainProperties scope s,
      ∃ plain, ∀ᶠ n in atTop, Converted (Plains (P.invoke n)) p (p.value scope s) plain := by
    intro p hMem
    obtain ⟨hp, hShown⟩ := mem_plainProperties.1 hMem
    exact exists_converted (hShape p hp) (hKeys p hp) (hThere p hp) hShown (hNested p hp)
  choose! plain hPlain using hEach
  exact ⟨plain, toObject_eventually hClass hShape hPlain⟩

theorem becomesPlain_of_plainable {v : Value} (plainable : Plainable P typeName v) :
    BecomesPlain P typeName v := by
  induction plainable with
  | intro known shape keys there nested ih =>
      obtain ⟨plain, hPlain⟩ := exists_object known shape keys there ih
      exact ⟨_, hPlain⟩

/-- **The plain object of an instance has a property exactly when the property is shown.** -/
theorem exists_plain (hClass : ClassOf P typeName scope m plan)
    (plainable : Plainable P typeName (.instance typeName s)) :
    ∃ object, (∀ σ, P.Answers (.method (.instance typeName s) "toObject" []) σ
        (.record object) σ) ∧
      ∀ p ∈ plan.properties, (p.name ∈ object.map Prod.fst ↔ p.shown scope s) := by
  cases plainable with
  | intro known shape keys there nested =>
      cases known.source.symm.trans hClass.source
      cases known.planned.symm.trans hClass.planned
      have hPlan := hClass.planned
      have distinct := (hClass.legal).names
      obtain ⟨plain, hPlain⟩ := exists_object hClass shape keys there
        fun p hp other v hHolds => becomesPlain_of_plainable (nested p hp other v hHolds)
      refine ⟨_, fun σ => hPlain.mono fun n h => h.2 σ, fun p hp => ?_⟩
      rw [List.map_map]
      constructor
      · intro hMem
        obtain ⟨q, hq, hName⟩ := List.mem_map.1 hMem
        obtain ⟨hqMem, hShown⟩ := mem_plainProperties.1 hq
        -- names are distinct, so the property that was shown is `p`
        rwa [← eq_of_name_eq hPlan distinct hqMem hp hName]
      · intro hShown
        exact List.mem_map.2 ⟨p, mem_plainProperties.2 ⟨hp, hShown⟩, rfl⟩

/-! ## Absent fields -/

/-- **An absent field is left out exactly when no default is declared for it**, of what an instance
writes and of its plain object. -/
theorem absent_iff_default (hClass : ClassOf P typeName scope m plan)
    (fits : Fits P typeName (.instance typeName s)) :
    (∃ records, (∀ σ, P.Answers (.method (.instance typeName s) "serialize" []) σ
        (.buffer records) { σ with output := records }) ∧
      ∀ p ∈ plan.properties, p.Absent s →
        (p.number ∉ records.map Prod.fst ↔ p.slot.descriptor.hasDefault = false)) ∧
    (Plainable P typeName (.instance typeName s) → ∃ object,
      (∀ σ, P.Answers (.method (.instance typeName s) "toObject" []) σ (.record object) σ) ∧
      ∀ p ∈ plan.properties, p.Absent s →
        (p.name ∉ object.map Prod.fst ↔ p.slot.descriptor.hasDefault = false)) := by
  have hPlan := hClass.planned
  have legal := hClass.legal
  constructor
  · obtain ⟨records, hRun, hNumbers⟩ := exists_serialized hClass fits
    refine ⟨records, hRun, fun p hp hAbsent => ?_⟩
    rw [hNumbers p hp hAbsent.2.1 hAbsent.2.2.1, written_of_absent hPlan legal hp hAbsent,
      Bool.not_eq_true]
  · intro plainable
    obtain ⟨object, hRun, hNames⟩ := exists_plain hClass plainable
    refine ⟨object, hRun, fun p hp hAbsent => ?_⟩
    rw [hNames p hp, shown_of_absent hPlan legal hp hAbsent, Bool.not_eq_true]

end Absent

/-! ## A pair with a default -/

/-- The first number of a pair. -/
def firstNumber : FieldDescriptor :=
  ⟨some "first", some 1, .optional, some 5, none, "", some 0, false, false, false⟩

/-- The second number of a pair, with a declared default. -/
def secondNumber : FieldDescriptor :=
  ⟨some "second", some 2, .optional, some 5, none, "7", some 0, false, false, false⟩

/-- A message with a oneof of two numbers. -/
def pair : MessageDescriptor :=
  ⟨some "Pair", [firstNumber, secondNumber], [], [], ["kind"], false⟩

/-- The property of a number of a pair. -/
def pairProperty (f : FieldDescriptor) : Property :=
  ⟨⟨f, .scalar false false, true, some 0⟩, .named "number", .scalar false false "Int32" "Int32"⟩

def pairPlan : Plan := ⟨"Pair", [pairProperty firstNumber, pairProperty secondNumber], ["kind"]⟩

/-- The file that declares pairs. -/
def pairFile : FileDescriptor :=
  { FileDescriptor.blank with name := "pair.proto", syntaxName := "proto2", messages := [pair] }

/-- What is known about the file. -/
def pairRegistry : Registry := Registry.empty.declare "pair.proto" ".Pair"

/-- The program of the class of pairs. -/
def pairProgram : Program :=
  ⟨[pairFile], by decide +kernel, pairRegistry, rfl, .standard, none⟩

/-- The scope in which pairs are generated. -/
def pairScope : Scope := pairFile.scope pairRegistry

theorem legal_pair : pair.Legal pairScope where
  names := ⟨by decide, by decide, by decide⟩
  numbers := by
    rw [MessageDescriptor.DistinctNumbers]
    decide
  oneofs := by
    rw [MessageDescriptor.OneofsInRange]
    decide
  members := by decide
  maps := by decide
  strings := by decide
  mapStrings := by decide

theorem class_pair : ClassOf pairProgram ".Pair" pairScope pair pairPlan where
  source := rfl
  planned := rfl
  legal := legal_pair
  named := by decide +kernel
  runtime := rfl
  globals := ⟨rfl, fun hMap => absurd hMap (by decide)⟩

theorem content_pair {p : Property} (hp : p ∈ pairPlan.properties) :
    p.content = .scalar false false "Int32" "Int32" := by
  rcases List.mem_pair.1 hp with rfl | rfl <;> rfl

/-- A pair whose first number is set. -/
def firstSet : Fields := fun number => if number = 1 then some (.int 3) else none

theorem firstSet_populated {number : Int} {v : Value} (h : firstSet number = some v) :
    number = 1 ∧ v = .int 3 := by
  rw [firstSet] at h
  split at h
  · exact ⟨‹_›, (Option.some.inj h).symm⟩
  · cases h

theorem shape_firstSet {p : Property} (hp : p ∈ pairPlan.properties) :
    p.Shape (firstSet p.number) := by
  rw [Property.Shape, content_pair hp]
  intro v hStored
  obtain ⟨-, rfl⟩ := firstSet_populated hStored
  refine ⟨rfl, fun hText => ?_⟩
  rcases List.mem_pair.1 hp with rfl | rfl <;> cases hText

theorem fits_firstSet : Fits pairProgram ".Pair" (.instance ".Pair" firstSet) := by
  refine .intro class_pair (fun p => shape_firstSet) ?_ ?_
  · intro p hp q hq _ hSomeP hSomeQ
    obtain ⟨v, hv⟩ := Option.isSome_iff_exists.1 hSomeP
    obtain ⟨w, hw⟩ := Option.isSome_iff_exists.1 hSomeQ
    exact eq_of_number_eq class_pair.planned legal_pair.numbers hp hq
      ((firstSet_populated hv).1.trans (firstSet_populated hw).1.symm)
  · intro p hp other v hHolds
    rw [Property.Holds, content_pair hp] at hHolds
    exact hHolds.elim

theorem plainable_firstSet : Plainable pairProgram ".Pair" (.instance ".Pair" firstSet) := by
  refine .intro class_pair (fun p => shape_firstSet) ?_ ?_ ?_
  · intro p hp key value entries hContent
    cases (content_pair hp).symm.trans hContent
  · intro p hp other write hContent
    cases (content_pair hp).symm.trans hContent
  · intro p hp other v hHolds
    rw [Property.Holds, content_pair hp] at hHolds
    exact hHolds.elim

theorem absent_iff_default_pair :
    ClassOf pairProgram ".Pair" pairScope pair pairPlan ∧
      Fits pairProgram ".Pair" (.instance ".Pair" firstSet) ∧
      Plainable pairProgram ".Pair" (.instance ".Pair" firstSet) ∧
      ∃ object, (∀ σ, pairProgram.Answers (.method (.instance ".Pair" firstSet) "toObject" []) σ
          (.record object) σ) ∧
        ∀ p ∈ pairPlan.properties, p.Absent firstSet →
          (p.name ∉ object.map Prod.fst ↔ p.slot.descriptor.hasDefault = false) :=
  ⟨class_pair, fits_firstSet, plainable_firstSet,
    (absent_iff_default class_pair fits_firstSet).2 plainable_firstSet⟩

/-- **A member of a oneof that is not populated is written next to the populated one**, and is in
the plain object beside it, when it has a declared default. -/
theorem absent_member_written :
    ∃ p ∈ pairPlan.properties, ∃ q ∈ pairPlan.properties, p.Absent firstSet ∧ p.Beside q ∧
      (firstSet q.number).isSome ∧ ∃ records object,
        (∀ σ, pairProgram.Answers (.method (.instance ".Pair" firstSet) "serialize" []) σ
          (.buffer records) { σ with output := records }) ∧
        (∀ σ, pairProgram.Answers (.method (.instance ".Pair" firstSet) "toObject" []) σ
          (.record object) σ) ∧
        p.number ∈ records.map Prod.fst ∧ p.name ∈ object.map Prod.fst := by
  obtain ⟨records, hSerialized, hNumbers⟩ := exists_serialized class_pair fits_firstSet
  obtain ⟨object, hPlain, hNames⟩ := exists_plain class_pair plainable_firstSet
  have hFirst : pairProperty firstNumber ∈ pairPlan.properties := List.mem_cons_self
  have hSecond : pairProperty secondNumber ∈ pairPlan.properties :=
    List.mem_cons_of_mem _ List.mem_cons_self
  have hAbsent : (pairProperty secondNumber).Absent firstSet := ⟨rfl, rfl, rfl, rfl⟩
  have hWritten := (written_of_absent class_pair.planned legal_pair hSecond hAbsent).2 rfl
  have hShown := (shown_of_absent class_pair.planned legal_pair hSecond hAbsent).2 rfl
  exact ⟨_, hSecond, _, hFirst, hAbsent, ⟨(fun h => nomatch h), rfl⟩, rfl, records, object,
    hSerialized, hPlain, (hNumbers _ hSecond rfl rfl).2 hWritten, (hNames _ hSecond).2 hShown⟩

end Protoscribe

import Protoscribe.Proofs.Message.Complete

set_option autoImplicit false

/-! # Plain objects and back

Main statement: `fromObject_toObject`, a complete instance becomes a plain object, and where the
classes of the messages inside can be made from plain objects (`Revivable`), whatever the order of
the properties in that object is, the instance that is made from it agrees with the first one: every
getter gives the same value, in nested messages as well, and maps have the same entries. A class
that has the name of a variable of the method is not made at all (`fromObject_taken`).

The proof is by induction on how instances contain one another. The messages inside an instance
come back within every large enough bound on nested calls, so the values of its properties do
(`returns_of_shown`), and then the instance does (`plainTrips_instance`).
-/

namespace Protoscribe

open TypeScript Evaluation Filter

/-! ## What comes back -/

/-- A value is converted by `there`, and every reordering of the result is converted `back` to a
value that agrees. Both conversions may depend on a bound, and hold for every large enough one. -/
def Returns (P : Program) (there back : Nat → Value → Value → Prop) (v : Value) : Prop :=
  ∃ plain, plain.isMissing = false ∧ (∀ᶠ n in atTop, there n v plain) ∧
    ∀ after, Reordered plain after → ∃ w, w.isMissing = false ∧ Agrees P v w ∧
      ∀ᶠ n in atTop, back n w after

/-- An instance of a type becomes a plain object, and comes back from it. -/
def PlainTrips (P : Program) (typeName : String) : Value → Prop :=
  Returns P (fun n => Plains (P.invoke n) typeName) fun n => Revives (P.invoke n) typeName

/-- The value of a property is put in a plain object, and comes back from it. -/
def Property.Returns (P : Program) (p : Property) : Value → Prop :=
  Protoscribe.Returns P (fun n => Converted (Plains (P.invoke n)) p)
    fun n => Converted (Revives (P.invoke n)) p

/-- The value of a map entry is put in a plain object, and comes back from it. -/
def MapSide.Returns (P : Program) (value : MapSide) : Value → Prop :=
  Protoscribe.Returns P (fun n => value.Converts (Plains (P.invoke n)))
    fun n => value.Converts (Revives (P.invoke n))

section PlainRoundTrip

variable {P : Program} {typeName : String} {scope : Scope} {m : MessageDescriptor} {plan : Plan}
  {s : Fields} {p : Property}

/-- What is converted both ways in the same situations comes back in the same situations. -/
theorem Returns.mono {there back there' back' : Nat → Value → Value → Prop} {v : Value}
    (h : Returns P there back v) (hThere : ∀ n v w, there n v w → there' n v w)
    (hBack : ∀ n v w, back n v w → back' n v w) : Returns P there' back' v := by
  obtain ⟨plain, hPresent, hPlain, hAfter⟩ := h
  refine ⟨plain, hPresent, hPlain.mono fun n => hThere n v plain, fun after hReordered => ?_⟩
  obtain ⟨w, hPresent, hAgrees, hRevived⟩ := hAfter after hReordered
  exact ⟨w, hPresent, hAgrees, hRevived.mono fun n => hBack n w after⟩

/-- What stands for itself and has no order comes back. -/
theorem Returns.of_same {there back : Nat → Value → Value → Prop} {v : Value}
    (present : v.isMissing = false) (only : ∀ w, Reordered v w → w = v)
    (hThere : ∀ n, there n v v) (hBack : ∀ n, back n v v) : Returns P there back v := by
  refine ⟨v, present, .of_forall hThere, fun after hReordered => ?_⟩
  rw [only after hReordered]
  exact ⟨v, present, .same v, .of_forall hBack⟩

/-! ## Values of properties -/

theorem Agrees.items {α : Type} {as : List α} {f g : α → Value}
    (h : ∀ a ∈ as, Agrees P (f a) (g a)) : Agrees P (.list (as.map f)) (.list (as.map g)) := by
  let pairs := as.map fun a => (f a, g a)
  have hPairs : Agrees P (.list (pairs.map Prod.fst)) (.list (pairs.map Prod.snd)) :=
    .list (by simpa [pairs] using h)
  rwa [List.map_map, List.map_map] at hPairs

theorem returns_messages {other write : String} {items : List Value}
    (content : p.content = .message other true write) (h : ∀ v ∈ items, PlainTrips P other v) :
    p.Returns P (.list items) := by
  choose! plain _ hThere hBack using h
  rw [← items.map_id]
  refine ⟨.list (items.map plain), rfl,
    (eventually_forall_mem hThere).mono fun n h => .items content h, fun after hReordered => ?_⟩
  -- a list keeps its order, so its messages come back one by one
  obtain ⟨pairs, rfl, rfl, hPairs⟩ := hReordered.list_inv
  have hEach : ∀ pair ∈ pairs, ∃ w, w.isMissing = false ∧ Agrees P pair.1 w ∧
      ∀ᶠ n in atTop, Revives (P.invoke n) other w pair.2 := fun pair hPair =>
    hBack pair.1 (List.mem_map_of_mem hPair) pair.2 (hPairs pair hPair)
  choose! live _ hAgrees hRevives using hEach
  refine ⟨.list (pairs.map live), rfl, ?_,
    (eventually_forall_mem hRevives).mono fun n h => .items content h⟩
  rw [List.map_map]
  exact .items hAgrees

theorem returns_message {other write : String} {v : Value}
    (content : p.content = .message other false write) (h : PlainTrips P other v) :
    p.Returns P v :=
  h.mono (fun _ _ _ => .message content) fun _ _ _ => .message content

/-! ## Maps -/

theorem returns_entry {value : MapSide} {v : Value} (present : v.isMissing = false)
    (hMessage : value.descriptor.isMessage → PlainTrips P value.descriptor.typeName v)
    (hAtom : value.descriptor.isMessage = false → v.isAtom) : value.Returns P v := by
  by_cases h : value.descriptor.isMessage
  · have hConverts {nested : Conversion} {v w : Value} :
        nested value.descriptor.typeName v w → value.Converts nested v w := by
      rw [MapSide.Converts, if_pos h]
      exact id
    exact (hMessage h).mono (fun _ _ _ => hConverts) fun _ _ _ => hConverts
  · have hConverts {nested : Conversion} : value.Converts nested v v := by
      rw [MapSide.Converts, if_neg h]
    exact .of_same present (fun w hReordered => hReordered.eq_of_isAtom
      (hAtom (Bool.eq_false_iff.2 h))) (fun _ => hConverts) fun _ => hConverts

/-- Entries with the same texts have the same keys. -/
theorem keys_perm {parts backs : List Converted.Entry}
    (texts : (backs.map Converted.Entry.text).Perm (parts.map Converted.Entry.text))
    (distinct : (parts.map Converted.Entry.text).Nodup)
    (h : ∀ back ∈ backs, ∃ part ∈ parts, back.key = part.key ∧ back.text = part.text) :
    (backs.map Converted.Entry.key).Perm (parts.map Converted.Entry.key) := by
  -- a text leads to the key of the only entry that has it
  have hKey : ∀ text : String, ∃ key, ∀ part ∈ parts, part.text = text → part.key = key := by
    intro text
    by_cases hText : text ∈ parts.map Converted.Entry.text
    · obtain ⟨part, hPart, rfl⟩ := List.mem_map.1 hText
      refine ⟨part.key, fun other hOther hSame => ?_⟩
      rw [List.inj_on_of_nodup_map distinct hOther hPart hSame]
    · exact ⟨.null, fun part hPart hSame => absurd (hSame ▸ List.mem_map_of_mem hPart) hText⟩
  choose key hKey using hKey
  have hParts : parts.map Converted.Entry.key = (parts.map Converted.Entry.text).map key := by
    rw [List.map_map]
    exact List.map_congr_left fun part hPart => hKey _ part hPart rfl
  have hBacks : backs.map Converted.Entry.key = (backs.map Converted.Entry.text).map key := by
    rw [List.map_map]
    refine List.map_congr_left fun back hBack => ?_
    obtain ⟨part, hPart, hSameKey, hSameText⟩ := h back hBack
    exact hSameKey.trans (hKey _ part hPart hSameText.symm)
  rw [hParts, hBacks]
  exact texts.map key

/-- The entries of a map come back from the properties of a plain object, in any order. -/
theorem returns_entries {key value : MapSide} {parts : List Converted.Entry}
    (content : p.content = .map key value)
    (keys : ∀ part ∈ parts, key.descriptor.HoldsKey part.key ∧ part.key.keyText = some part.text)
    (distinct : (parts.map Converted.Entry.key).Nodup)
    (hBack : ∀ part ∈ parts, ∀ after, Reordered part.plain after → ∃ w, w.isMissing = false ∧
      Agrees P part.live w ∧ ∀ᶠ n in atTop, value.Converts (Revives (P.invoke n)) w after)
    {after : Value}
    (hReordered : Reordered (.record (parts.map fun part => (part.text, part.plain))) after) :
    ∃ w, w.isMissing = false ∧ Agrees P (.map (parts.map fun part => (part.key, part.live))) w ∧
      ∀ᶠ n in atTop, Converted (Revives (P.invoke n)) p w after := by
  obtain ⟨properties, rfl, hNames, hEach⟩ := hReordered.record_inv
  -- every property of the reordered object stands for one entry, and comes back as one
  have hSources : ∀ property ∈ properties, ∃ back : Converted.Entry,
      (back.text, back.plain) = property ∧ ∃ part ∈ parts, back.key = part.key ∧
        back.text = part.text ∧ Agrees P part.live back.live ∧
        ∀ᶠ n in atTop, value.Converts (Revives (P.invoke n)) back.live back.plain := by
    rintro ⟨text, plain⟩ hMem
    obtain ⟨part, hPart, hText, hPlain⟩ := hEach _ hMem
    obtain ⟨live, -, hAgrees, hRevives⟩ := hBack part hPart plain hPlain
    exact ⟨⟨part.key, text, live, plain⟩, rfl, part, hPart, rfl, hText, hAgrees, hRevives⟩
  obtain ⟨backs, rfl, hBacks⟩ := exists_map hSources
  rw [List.map_map] at hNames
  have hKeys : (backs.map Converted.Entry.key).Perm (parts.map Converted.Entry.key) :=
    keys_perm hNames (nodup_texts keys distinct) fun back hMem => by
      obtain ⟨part, hPart, hKey, hText, -⟩ := hBacks back hMem
      exact ⟨part, hPart, hKey, hText⟩
  have hBackKeys : ∀ back ∈ backs, key.descriptor.HoldsKey back.key ∧
      back.key.keyText = some back.text := by
    intro back hMem
    obtain ⟨part, hPart, hKey, hText, -⟩ := hBacks back hMem
    rw [hKey, hText]
    exact keys part hPart
  have hRevives : ∀ᶠ n in atTop, ∀ back ∈ backs,
      value.Converts (Revives (P.invoke n)) back.live back.plain :=
    eventually_forall_mem fun back hMem => by
      obtain ⟨part, hPart, -, -, -, hRevives⟩ := hBacks back hMem
      exact hRevives
  refine ⟨_, rfl, .map ?_ ?_, hRevives.mono fun n h =>
    .map content hBackKeys (hKeys.nodup_iff.2 distinct) h⟩
  · rw [List.map_map, List.map_map]
    exact hKeys
  · intro found v w hBefore hAfter
    -- entries with the same key on both sides are about the same property, as keys are distinct
    obtain ⟨part, hPart, rfl, rfl⟩ : ∃ part ∈ parts, part.key = found ∧ part.live = v := by
      simpa using hBefore
    obtain ⟨back, hMem, hSame, rfl⟩ : ∃ back ∈ backs, back.key = part.key ∧ back.live = w := by
      simpa using hAfter
    obtain ⟨other, hOther, hKey, -, hAgrees, -⟩ := hBacks back hMem
    rw [List.inj_on_of_nodup_map distinct hPart hOther (hSame.symm.trans hKey)]
    exact hAgrees

theorem returns_map {key value : MapSide} {entries : List (Scalar × Value)}
    (content : p.content = .map key value) (distinct : (entries.map Prod.fst).Nodup)
    (keys : ∀ entry ∈ entries, key.descriptor.HoldsKey entry.1)
    (h : ∀ entry ∈ entries, value.Returns P entry.2) : p.Returns P (.map entries) := by
  have hTargets : ∀ entry ∈ entries, ∃ part : Converted.Entry, (part.key, part.live) = entry ∧
      (key.descriptor.HoldsKey part.key ∧ part.key.keyText = some part.text) ∧
      (∀ᶠ n in atTop, value.Converts (Plains (P.invoke n)) part.live part.plain) ∧
      ∀ after, Reordered part.plain after → ∃ w, w.isMissing = false ∧ Agrees P part.live w ∧
        ∀ᶠ n in atTop, value.Converts (Revives (P.invoke n)) w after := by
    rintro ⟨k, v⟩ hMem
    obtain ⟨text, hText⟩ := exists_keyText (keys _ hMem)
    obtain ⟨plain, -, hPlain, hBack⟩ := h _ hMem
    exact ⟨⟨k, text, v, plain⟩, rfl, ⟨keys _ hMem, hText⟩, hPlain, hBack⟩
  obtain ⟨parts, rfl, hParts⟩ := exists_map hTargets
  rw [List.map_map] at distinct
  have hKeys := fun part hMem => (hParts part hMem).1
  have hPlains := eventually_forall_mem fun part hMem => (hParts part hMem).2.1
  exact ⟨_, rfl, hPlains.mono fun n h => .map content hKeys distinct h, fun after hReordered =>
    returns_entries content hKeys distinct (fun part hMem => (hParts part hMem).2.2) hReordered⟩

/-! ## Shown properties -/

/-- A scalar and a list of scalars have no order of properties. -/
theorem eq_of_reordered_scalar {repeated packed : Bool} {write read : String} {w : Value}
    (content : p.content = .scalar repeated packed write read) (hShape : p.Shape (s p.number))
    (hTyped : p.Typed (s p.number)) (h : Reordered (p.value scope s) w) : w = p.value scope s := by
  simp only [Property.Shape, Property.Typed, content] at hShape hTyped
  cases repeated with
  | true =>
      obtain ⟨items, hStored⟩ := hShape
      rw [Property.value_of_some hStored] at h ⊢
      exact h.eq_of_atoms (hTyped items hStored)
  | false =>
      refine h.eq_of_isAtom ?_
      cases hStored : s p.number with
      | none =>
          rw [Property.value_of_none hStored]
          exact default_atom scope p
      | some v =>
          rw [Property.value_of_some hStored]
          exact hTyped v hStored

/-- The value of a property that is shown comes back when the messages in it do. -/
theorem returns_of_shown (hShape : p.Shape (s p.number)) (hTyped : p.Typed (s p.number))
    (hPresent : (p.value scope s).isMissing = false)
    (hNested : ∀ other v, p.Holds (s p.number) other v → PlainTrips P other v) :
    p.Returns P (p.value scope s) := by
  cases hContent : p.content with
  | map key value =>
      simp only [Property.Shape, Property.Typed, hContent] at hShape hTyped
      obtain ⟨entries, hStored, hDistinct, hEntries⟩ := hShape
      rw [Property.value_of_some hStored]
      refine returns_map hContent hDistinct (fun entry hMem => (hTyped _ hStored entry hMem).1) ?_
      rintro ⟨k, v⟩ hMem
      exact returns_entry (hEntries _ hMem).2
        (fun hMessage => hNested _ v (holds_entry hContent hMessage hStored hMem))
        (hTyped _ hStored _ hMem).2
  | message other repeated write =>
      simp only [Property.Shape, hContent] at hShape
      cases repeated with
      | true =>
          obtain ⟨items, hStored⟩ := hShape
          rw [Property.value_of_some hStored]
          exact returns_messages hContent fun v hMem =>
            hNested other v (holds_item hContent hStored hMem)
      | false =>
          cases hStored : s p.number with
          | none =>
              rw [Property.value_of_none hStored, Property.default, hContent] at hPresent
              cases hPresent
          | some v =>
              rw [Property.value_of_some hStored]
              exact returns_message hContent (hNested other v (holds_message hContent hStored))
  | scalar repeated packed write read =>
      exact .of_same hPresent (fun w => eq_of_reordered_scalar hContent hShape hTyped)
        (fun _ => .scalar hContent) fun _ => .scalar hContent

/-! ## Instances -/

section Instance

variable (hClass : ClassOf P typeName scope m plan) (legal : m.Legal scope)
  (plain : m.PlainMembers) (hShape : ∀ p ∈ plan.properties, p.Shape (s p.number))
  (hExclusive : plan.Exclusive s) {back : Property → Value}
  (hBack : ∀ p ∈ plan.properties, p.shown scope s →
    Agrees P (p.value scope s) (back p) ∧ (back p).isMissing = false)

include hClass legal plain hShape hExclusive hBack

/-- What the fields of the instance that comes back hold. -/
theorem revived_field (hp : p ∈ plan.properties) :
    plan.revived (·.shown scope s) back p.number =
      if p.shown scope s then some (back p) else p.initial := by
  have hPlan := hClass.planned
  refine revived_number hPlan legal (fun q hq => oneof_of_required hPlan hq plain)
    (fun q hq hShown => (hBack q hq hShown).2) (fun q _ => shown_of_required) ?_ hp
  -- only the populated member of a oneof is shown
  intro q hq r hr hBeside hShownQ hShownR
  have hOther : q.slot.oneof ≠ none := fun h => hBeside.1 (hBeside.2.symm.trans h)
  rw [shown_member hPlan hq (hShape q hq) legal plain hOther] at hShownQ
  rw [shown_member hPlan hr (hShape r hr) legal plain hBeside.1] at hShownR
  exact (hExclusive r hr q hq hBeside hShownR hShownQ).symm

/-- The instance that comes back agrees when the values that came back do. -/
theorem agrees_revived :
    Agrees P (.instance typeName s)
      (.instance typeName (plan.revived (·.shown scope s) back)) := by
  have hPlan := hClass.planned
  have hField {p : Property} (hp : p ∈ plan.properties) :=
    revived_field hClass legal plain hShape hExclusive hBack hp
  refine .instance hClass ?_ ?_
  · intro p hp
    cases hShown : p.shown scope s with
    | true =>
        have hStored := hField hp
        rw [if_pos hShown] at hStored
        rw [Property.value_of_some hStored]
        exact (hBack p hp hShown).1
    | false =>
        have hStored := hField hp
        rw [hShown, if_neg Bool.false_ne_true] at hStored
        rw [value_of_hidden hPlan hp (hShape p hp) hShown, Property.value, hStored]
        exact .same _
  · intro index
    refine Fields.caseOf_congr fun number hMem => ?_
    obtain ⟨p, hpGroup, rfl⟩ := List.mem_map.1 hMem
    obtain ⟨hp, hOneof⟩ := mem_group.1 hpGroup
    have hMember : p.slot.oneof ≠ none := by simp [hOneof]
    obtain ⟨hList, hMap⟩ := single_of_oneof hPlan hp legal hMember
    rw [hField hp, ← shown_member hPlan hp (hShape p hp) legal plain hMember]
    cases p.shown scope s with
    | true => rfl
    | false => rw [if_neg Bool.false_ne_true, Property.initial, hList, hMap]; rfl

end Instance

/-- The properties of a plain object that were put in another order are looked up by name. -/
theorem given_of_reordered {plainOf : Property → Value} {after : Value}
    (hPlan : scope.plan m = .ok plan) (legal : m.Legal scope)
    (h : Reordered
      (.record ((plan.plainProperties scope s).map fun p => (p.name, plainOf p))) after) :
    ∃ (properties : List (String × Value)) (given : Property → Value), after = .record properties ∧
      ∀ p ∈ plan.properties, (p.shown scope s → properties.lookup p.name = some (given p) ∧
        Reordered (plainOf p) (given p)) ∧
        (p.shown scope s = false → properties.lookup p.name = none) := by
  obtain ⟨properties, rfl, hFound, hNew⟩ := h.lookup (nodup_plainProperties hPlan legal.names)
  refine ⟨properties, fun p => (properties.lookup p.name).getD .undefined, rfl, fun p hp => ?_⟩
  constructor
  · intro hShown
    obtain ⟨v, hLookup, hReordered⟩ := hFound p (mem_plainProperties.2 ⟨hp, hShown⟩)
    simp only [hLookup, Option.getD_some]
    exact ⟨trivial, hReordered⟩
  · intro hHidden
    refine hNew p.name fun hMem => ?_
    obtain ⟨q, hq, hName⟩ := List.mem_map.1 hMem
    obtain ⟨hqMem, hShown⟩ := mem_plainProperties.1 hq
    rw [eq_of_name_eq hPlan legal.names hqMem hp hName, hHidden] at hShown
    cases hShown

/-- The properties of a plain object make up the instance that comes back. -/
theorem fromObject_eventually (hClass : ClassOf P typeName scope m plan)
    (revivable : Revivable P typeName scope m) (plain : m.PlainMembers)
    {properties : List (String × Value)} {given back : Property → Value}
    (hGiven : ∀ p ∈ plan.properties, p.shown scope s →
      properties.lookup p.name = some (given p) ∧ (given p).isMissing = false)
    (hAbsent : ∀ p ∈ plan.properties, p.shown scope s = false → properties.lookup p.name = none)
    (hRevives : ∀ p ∈ plan.plainProperties scope s,
      ∀ᶠ n in atTop, Converted (Revives (P.invoke n)) p (back p) (given p)) :
    ∀ᶠ n in atTop, Revives (P.invoke n) typeName
      (.instance typeName (plan.revived (·.shown scope s) back)) (.record properties) := by
  obtain ⟨bound, hBound⟩ := eventually_atTop.1 (eventually_forall_mem hRevives)
  -- the constructor and the setters are nested in the call, and a getter in them
  refine eventually_atTop.2 ⟨bound + 3, fun n hn => ?_⟩
  obtain ⟨k, rfl⟩ : ∃ k, n = k + 3 := ⟨n - 3, by omega⟩
  have hConverted : ∀ p ∈ plan.properties, p.shown scope s →
      Converted (Revives (P.invoke (k + 2))) p (back p) (given p) := fun p hp hShown =>
    hBound (k + 2) (by omega) p (mem_plainProperties.2 ⟨hp, hShown⟩)
  have hDescribes : Describes plan (Revives (P.invoke (k + 2))) properties (·.shown scope s) back
      given :=
    { names := fun p hp => revivable.names _ (property_of_plan hClass.planned hp).1
      required := fun p _ => shown_of_required
      there := fun p hp hShown => (hGiven p hp hShown).1
      absent := hAbsent
      present := fun p hp hShown => (hGiven p hp hShown).2
      converted := hConverted }
  have hMaps : ∀ p ∈ plan.properties, p.isMap → p.optional = false →
      ∃ entries, back p = .map entries := fun p hp hMap hOptional =>
    ((hConverted p hp (shown_of_required hOptional)).map_inv hMap).1
  exact fromObject_run hClass revivable id hDescribes fun p hp hMap v hCopied =>
    copied_map hClass.planned hClass.legal
      (fun q hq => oneof_of_required hClass.planned hq plain) hMaps hp hMap hCopied

/-- Whatever an instance contains comes back from plain objects, so the instance does. -/
theorem plainTrips_instance (hClass : ClassOf P typeName scope m plan)
    (revivable : Revivable P typeName scope m) (plain : m.PlainMembers)
    (hShape : ∀ p ∈ plan.properties, p.Shape (s p.number))
    (hTyped : ∀ p ∈ plan.properties, p.Typed (s p.number)) (hExclusive : plan.Exclusive s)
    (hRequired : ∀ p ∈ plan.properties, p.slot.descriptor.label = .required →
      (s p.number).isSome)
    (hNested : ∀ p ∈ plan.properties, ∀ other v, p.Holds (s p.number) other v →
      PlainTrips P other v) : PlainTrips P typeName (.instance typeName s) := by
  have hPlan := hClass.planned
  have legal := hClass.legal
  -- every property that is shown can be put in the object and taken out again
  have hReturns : ∀ p ∈ plan.plainProperties scope s, p.Returns P (p.value scope s) := by
    intro p hMem
    obtain ⟨hp, hShown⟩ := mem_plainProperties.1 hMem
    exact returns_of_shown (hShape p hp) (hTyped p hp)
      (shown_present hPlan hp (hShape p hp) (hRequired p hp) hShown) (hNested p hp)
  choose! plainOf hPresent hThere hAfter using hReturns
  refine ⟨.record ((plan.plainProperties scope s).map fun p => (p.name, plainOf p)), rfl,
    toObject_eventually hClass hShape hThere, fun after hReordered => ?_⟩
  obtain ⟨properties, given, rfl, hGiven⟩ := given_of_reordered hPlan legal hReordered
  -- each property comes back from what the reordered object has for it
  have hBacks : ∀ p ∈ plan.plainProperties scope s, ∃ w, w.isMissing = false ∧
      Agrees P (p.value scope s) w ∧
      ∀ᶠ n in atTop, Converted (Revives (P.invoke n)) p w (given p) := by
    intro p hMem
    obtain ⟨hp, hShown⟩ := mem_plainProperties.1 hMem
    exact hAfter p hMem (given p) ((hGiven p hp).1 hShown).2
  choose! back hBackPresent hAgrees hRevives using hBacks
  have hBack : ∀ p ∈ plan.properties, p.shown scope s →
      Agrees P (p.value scope s) (back p) ∧ (back p).isMissing = false := fun p hp hShown =>
    ⟨hAgrees p (mem_plainProperties.2 ⟨hp, hShown⟩),
      hBackPresent p (mem_plainProperties.2 ⟨hp, hShown⟩)⟩
  have hGivenPresent : ∀ p ∈ plan.properties, p.shown scope s →
      properties.lookup p.name = some (given p) ∧ (given p).isMissing = false := by
    intro p hp hShown
    obtain ⟨hLookup, hSame⟩ := (hGiven p hp).1 hShown
    exact ⟨hLookup, hSame.isMissing_eq.trans
      (hPresent p (mem_plainProperties.2 ⟨hp, hShown⟩))⟩
  exact ⟨_, rfl, agrees_revived hClass legal plain hShape hExclusive hBack,
    fromObject_eventually hClass revivable plain hGivenPresent
      (fun p hp => (hGiven p hp).2) hRevives⟩

/-- Every complete instance of a class that can be made from plain objects comes back from its plain
object. -/
theorem plainTrips_of_complete {v : Value} (complete : Complete P typeName v)
    (revivable : P.Throughout typeName (Revivable P))
    (plain : P.Throughout typeName fun _ _ m => m.PlainMembers) : PlainTrips P typeName v := by
  induction complete with
  | intro known shape typed exclusive required nested ih =>
      refine plainTrips_instance known (revivable.here known.source) (plain.here known.source) shape
        typed exclusive required fun p hp other v hHolds => ?_
      have hField := hasField_of_holds known hp hHolds
      exact ih p hp other v hHolds (revivable.inside hField) (plain.inside hField)

/-- **The plain object of an instance, in any order of its properties, becomes an instance that
agrees with the first one**, where the classes of the messages inside can be made from plain
objects. -/
theorem fromObject_toObject (revivable : P.Throughout typeName (Revivable P))
    (plain : P.Throughout typeName fun _ _ m => m.PlainMembers) {v : Value}
    (complete : Complete P typeName v) :
    ∃ object, (∀ σ, P.Answers (.method v "toObject" []) σ object σ) ∧
      ∀ after, Reordered object after → ∃ back, Agrees P v back ∧
        ∀ σ, P.Answers (.static typeName "fromObject" [after]) σ back σ := by
  obtain ⟨object, -, hThere, hAfter⟩ := plainTrips_of_complete complete revivable plain
  refine ⟨object, fun σ => hThere.mono fun n h => h.2 σ, fun after hReordered => ?_⟩
  obtain ⟨back, -, hAgrees, hRevives⟩ := hAfter after hReordered
  exact ⟨back, hAgrees, fun σ => hRevives.mono fun n h => h σ⟩

end PlainRoundTrip

/-! ## Trees -/

theorem complete_tree {s : Fields} (fits : Fits treeProgram ".Tree" (.instance ".Tree" s))
    (label : ∀ v, s 1 = some v → v.isAtom)
    (sizes : ∀ items, s 2 = some (.list items) → ∀ item ∈ items, item.isAtom)
    (first : ∀ v, s 3 = some v → Complete treeProgram ".Tree" v)
    (others : ∀ entries, s 4 = some (.map entries) → ∀ entry ∈ entries,
      (∃ text, entry.1 = .string text) ∧ Complete treeProgram ".Tree" entry.2) :
    Complete treeProgram ".Tree" (.instance ".Tree" s) := by
  cases fits with
  | intro known shape exclusive nested =>
      obtain ⟨-, rfl, rfl⟩ := source_tree known.source
      obtain rfl := Except.ok.inj (class_tree.planned.symm.trans known.planned)
      refine .intro known shape ?_ exclusive ?_ ?_
      · refine List.forall_mem_cons.2 ⟨label, List.forall_mem_cons.2 ⟨sizes, List.forall_mem_cons.2
          ⟨trivial, List.forall_mem_cons.2 ⟨fun entries hStored entry hMem => ?_, by simp⟩⟩⟩⟩
        exact ⟨(others entries hStored entry hMem).1, fun h => nomatch h⟩
      · refine List.forall_mem_cons.2 ⟨?_, List.forall_mem_cons.2 ⟨?_, List.forall_mem_cons.2
          ⟨?_, List.forall_mem_cons.2 ⟨?_, by simp⟩⟩⟩⟩ <;> exact fun h => nomatch h
      · refine List.forall_mem_cons.2 ⟨fun _ _ h => h.elim, List.forall_mem_cons.2
          ⟨fun _ _ h => h.elim, List.forall_mem_cons.2 ⟨?_, List.forall_mem_cons.2 ⟨?_, by simp⟩⟩⟩⟩
        · rintro other v ⟨rfl, hStored⟩
          exact first v hStored
        · rintro other v ⟨-, rfl, entries, key, hStored, hMem⟩
          exact (others entries hStored _ hMem).2

theorem complete_leaf : Complete treeProgram ".Tree" (.instance ".Tree" leaf) := by
  refine complete_tree fits_leaf (fun v h => ?_) (fun items h => ?_) (fun v h => nomatch h)
    fun entries h => ?_
  · obtain rfl := Option.some.inj h
    rfl
  · cases h
    simp
  · cases h
    simp

theorem complete_root : Complete treeProgram ".Tree" (.instance ".Tree" root) := by
  refine complete_tree fits_root (fun v h => ?_) (fun items h => ?_) (fun v h => ?_)
    fun entries h => ?_
  · obtain rfl := Option.some.inj h
    rfl
  · cases h
    simp [Value.int, Value.isAtom]
  · obtain rfl := Option.some.inj h
    exact complete_leaf
  · cases h
    simpa using complete_leaf

theorem revivable_tree : treeProgram.Throughout ".Tree" (Revivable treeProgram) := by
  rintro other - scope m hSource
  obtain ⟨rfl, rfl, rfl⟩ := source_tree hSource
  exact ⟨makes_tree rfl (by decide) (by decide +kernel), by decide⟩

theorem plain_tree : treeProgram.Throughout ".Tree" fun _ _ m => m.PlainMembers := by
  rintro other - scope m hSource
  obtain ⟨-, -, rfl⟩ := source_tree hSource
  rw [MessageDescriptor.PlainMembers]
  decide

theorem fromObject_toObject_root :
    treeProgram.Throughout ".Tree" (Revivable treeProgram) ∧
      treeProgram.Throughout ".Tree" (fun _ _ m => m.PlainMembers) ∧
      Complete treeProgram ".Tree" (.instance ".Tree" root) ∧
      ∃ object, (∀ σ, treeProgram.Answers (.method (.instance ".Tree" root) "toObject" []) σ
          object σ) ∧
        ∀ after, Reordered object after → ∃ back, Agrees treeProgram (.instance ".Tree" root) back ∧
          ∀ σ, treeProgram.Answers (.static ".Tree" "fromObject" [after]) σ back σ :=
  ⟨revivable_tree, plain_tree, complete_root,
    fromObject_toObject revivable_tree plain_tree complete_root⟩

/-! ## A message with the name of a variable -/

theorem complete_greeting : Complete namedProgram ".message" (.instance ".message" greeting) := by
  refine .intro class_named shape_greeting ?_ exclusive_greeting ?_ ?_
  · intro p hp
    obtain rfl := List.mem_singleton.1 hp
    intro v hStored
    obtain rfl := Option.some.inj hStored
    rfl
  · intro p hp hRequired
    obtain rfl := List.mem_singleton.1 hp
    cases hRequired
  · intro p hp other v hHolds
    obtain rfl := List.mem_singleton.1 hp
    exact hHolds.elim

/-- **A plain object of `message` never becomes an instance**: the variable of the method that makes
instances hides the class. -/
theorem fromObject_never_makes_message :
    Complete namedProgram ".message" (.instance ".message" greeting) ∧ namedMessage.PlainMembers ∧
      ∃ object, (∀ σ, namedProgram.Answers (.method (.instance ".message" greeting) "toObject" [])
          σ object σ) ∧
        ∀ n σ, namedProgram.invoke n (.static ".message" "fromObject" [object]) σ = none := by
  have hObject := @toObject_eventually namedProgram ".message" namedScope namedMessage namedPlan
    greeting (fun p => p.value namedScope greeting) class_named shape_greeting fun p hp =>
      .of_forall fun n => by
        obtain rfl := List.mem_singleton.1 (mem_plainProperties.1 hp).1
        exact .scalar rfl
  refine ⟨complete_greeting, ?_, _, fun σ => hObject.mono fun n h => h.2 σ, fun n σ =>
    fromObject_taken class_named (by decide) n _⟩
  rw [MessageDescriptor.PlainMembers]
  decide

end Protoscribe

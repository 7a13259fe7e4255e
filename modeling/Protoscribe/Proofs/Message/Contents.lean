import Protoscribe.Proofs.Evaluation.Writer
import Protoscribe.Proofs.Message.ClassMembers

set_option autoImplicit false

/-! # How the contents of a property are carried

The content of a property of a plan decides the routines that write and read it. For scalars both
names end in the same base and differ at most in `Repeated` (`scalar_content`); messages are
carried by `Message` and `RepeatedMessage` (`message_content`); the sides of a map are carried like
singular fields (`map_content`). The rules that these facts rest on are those of
`MessageDescriptor.Legal`.
-/

namespace Protoscribe

open TypeScript Evaluation Checked

/-! ## Rules for messages -/

/-- What a compiler of proto files checks about a message. -/
structure MessageDescriptor.Legal (scope : Scope) (m : MessageDescriptor) : Prop where
  names : m.DistinctNames
  numbers : m.DistinctNumbers
  oneofs : m.OneofsInRange
  /-- The members of a oneof are singular and no maps. -/
  members : ∀ f ∈ m.fields, f.oneofIndex? ≠ none → f.isRepeated = false ∧ scope.mapOf? f = none
  /-- The sides of a map are singular. -/
  maps : ∀ f ∈ m.fields, ∀ entry, scope.mapOf? f = some entry →
    entry.key.isRepeated = false ∧ entry.value.isRepeated = false
  /-- Only 64-bit numbers are handed over as strings, so messages are not. -/
  strings : ∀ f ∈ m.fields, f.isMessage → f.jsString = false
  mapStrings : ∀ f ∈ m.fields, ∀ entry, scope.mapOf? f = some entry →
    entry.value.isMessage → entry.value.jsString = false

/-! ## Names of routines -/

theorem isBase_routine {type : FieldType} {name : String} (h : type.routine? = some name)
    (jsString : Bool) : IsBase (name ++ (if jsString then "String" else "")) := by
  unfold IsBase
  cases type <;> cases h <;> cases jsString <;> decide

theorem routineWith_eq_ok {f : FieldDescriptor} {start routine : String}
    (h : f.routineWith start = .ok routine) :
    ∃ base, f.type.routine? = some base ∧
      routine = start ++ (base ++ (if f.jsString then "String" else "")) := by
  rw [FieldDescriptor.routineWith] at h
  cases hBase : f.type.routine? with
  | none => simp [hBase] at h
  | some base =>
      rw [hBase] at h
      exact ⟨base, rfl, by rw [← Except.ok.inj h, String.append_assoc]⟩

theorem routine_of_message {f : FieldDescriptor} (hMessage : f.isMessage)
    (hString : f.jsString = false) {start routine : String} (h : f.routineWith start = .ok routine) :
    routine = start ++ "Message" := by
  obtain ⟨base, hBase, rfl⟩ := routineWith_eq_ok h
  have hType : f.type = .message := by simpa [FieldDescriptor.isMessage] using hMessage
  rw [hType] at hBase
  obtain rfl := Option.some.inj hBase
  rw [hString]
  rfl

/-- A side of a map is written like a singular field. -/
theorem mapSide_eq_ok {scope : Scope} {f : FieldDescriptor} {side : MapSide}
    (h : scope.mapSide f = .ok side) (hSingle : f.isRepeated = false) :
    side.descriptor = f ∧ IsBase side.routine ∧
      (f.isMessage → f.jsString = false → side.routine = "Message") := by
  obtain ⟨type, -, h⟩ := bind_eq_ok.1 h
  obtain ⟨routine, hRoutine, h⟩ := bind_eq_ok.1 h
  obtain rfl := pure_eq_ok.1 h
  have hStart : (if f.isPacked then "Packed" else if f.isRepeated then "Repeated" else "") = "" := by
    simp [FieldDescriptor.isPacked, FieldDescriptor.isPackable, hSingle]
  rw [FieldDescriptor.writeRoutine, hStart] at hRoutine
  obtain ⟨base, hBase, hName⟩ := routineWith_eq_ok hRoutine
  rw [String.empty_append] at hName
  refine ⟨rfl, ?_, fun hMessage hString => ?_⟩
  · rw [hName]
    exact isBase_routine hBase _
  · exact routine_of_message hMessage hString hRoutine

/-! ## Contents -/

/-- A field that is optional by its label may be left out. -/
theorem FileDescriptor.mayOmit_of_optional (file : FileDescriptor) {f : FieldDescriptor}
    (h : f.label = .optional) : file.mayOmit f = true := by
  simp [FileDescriptor.mayOmit, h]

section Contents

variable {scope : Scope} {m : MessageDescriptor} {plan : Plan} (hPlan : scope.plan m = .ok plan)
  {p : Property} (hp : p ∈ plan.properties)

include hPlan hp

theorem slot_of_plan : p.slot = ⟨p.slot.descriptor, scope.storage p.slot.descriptor,
    scope.file.mayOmit p.slot.descriptor, p.slot.descriptor.oneof?⟩ := by
  obtain ⟨-, hSlot, -⟩ := property_of_plan hPlan hp
  rw [Scope.slot] at hSlot
  split at hSlot
  · cases hSlot
  · exact (Except.ok.inj hSlot).symm

theorem storage_of_plan : p.slot.storage = scope.storage p.slot.descriptor := by
  rw [slot_of_plan hPlan hp]

theorem optional_of_plan : p.optional = scope.file.mayOmit p.slot.descriptor := by
  rw [Property.optional, slot_of_plan hPlan hp]

/-- What the content of a property says about its field. -/
theorem content_of_plan :
    match scope.storage p.slot.descriptor with
    | .map entry => ∃ key value, p.content = .map key value ∧
        scope.mapSide entry.key = .ok key ∧ scope.mapSide entry.value = .ok value
    | .message typeName repeated => ∃ write, p.content = .message typeName repeated write ∧
        p.slot.descriptor.writeRoutine = .ok write
    | .scalar repeated packed => ∃ write read, p.content = .scalar repeated packed write read ∧
        p.slot.descriptor.writeRoutine = .ok write ∧ p.slot.descriptor.readRoutine = .ok read := by
  obtain ⟨-, -, hContent⟩ := property_of_plan hPlan hp
  rw [Scope.content, storage_of_plan hPlan hp] at hContent
  cases hStorage : scope.storage p.slot.descriptor with
  | map entry =>
      rw [hStorage] at hContent
      obtain ⟨key, hKey, hContent⟩ := bind_eq_ok.1 hContent
      obtain ⟨value, hValue, hContent⟩ := bind_eq_ok.1 hContent
      exact ⟨key, value, (pure_eq_ok.1 hContent).symm, hKey, hValue⟩
  | message typeName repeated =>
      rw [hStorage] at hContent
      obtain ⟨write, hWrite, hContent⟩ := bind_eq_ok.1 hContent
      exact ⟨write, (pure_eq_ok.1 hContent).symm, hWrite⟩
  | scalar repeated packed =>
      rw [hStorage] at hContent
      obtain ⟨write, hWrite, hContent⟩ := bind_eq_ok.1 hContent
      obtain ⟨read, hRead, hContent⟩ := bind_eq_ok.1 hContent
      exact ⟨write, read, (pure_eq_ok.1 hContent).symm, hWrite, hRead⟩

theorem isList_eq : p.slot.isList =
    match p.content with
    | .map .. => false
    | .message _ repeated _ => repeated
    | .scalar repeated .. => repeated := by
  have hContent := content_of_plan hPlan hp
  rw [Slot.isList, storage_of_plan hPlan hp]
  cases hStorage : scope.storage p.slot.descriptor with
  | map entry =>
      rw [hStorage] at hContent
      obtain ⟨key, value, hContent, -, -⟩ := hContent
      rw [hContent]
  | message typeName repeated =>
      rw [hStorage] at hContent
      obtain ⟨write, hContent, -⟩ := hContent
      rw [hContent]
  | scalar repeated packed =>
      rw [hStorage] at hContent
      obtain ⟨write, read, hContent, -, -⟩ := hContent
      rw [hContent]

/-- Lists and maps belong to no oneof. -/
theorem oneof_eq_none (legal : m.Legal scope) (h : p.slot.isList ∨ p.isMap) :
    p.slot.oneof = none := by
  have hContent := content_of_plan hPlan hp
  obtain ⟨hField, -, -⟩ := property_of_plan hPlan hp
  have hSingle : p.slot.descriptor.oneofIndex? = none := by
    by_contra hOneof
    obtain ⟨hRepeated, hMap⟩ := legal.members _ hField hOneof
    rw [Slot.isList, storage_of_plan hPlan hp] at h
    by_cases hMessage : p.slot.descriptor.isMessage
    · simp only [Scope.storage, hMap, hMessage, if_true] at hContent h
      obtain ⟨write, hContent, -⟩ := hContent
      simp [Property.isMap, hContent, hRepeated] at h
    · simp only [Scope.storage, hMap, hMessage, Bool.false_eq_true, if_false] at hContent h
      obtain ⟨write, read, hContent, -⟩ := hContent
      simp [Property.isMap, hContent, hRepeated] at h
  rw [slot_of_plan hPlan hp]
  simp only [FieldDescriptor.oneof?, hSingle, Option.map_none]

/-- The members of a oneof are neither lists nor maps. -/
theorem single_of_oneof (legal : m.Legal scope) (h : p.slot.oneof ≠ none) :
    p.slot.isList = false ∧ p.isMap = false := by
  have hKind : ¬ (p.slot.isList ∨ p.isMap) := fun hKind =>
    h (oneof_eq_none hPlan hp legal hKind)
  simpa using hKind

theorem scalar_content {repeated packed : Bool} {write read : String}
    (h : p.content = .scalar repeated packed write read) :
    p.slot.isList = repeated ∧ (packed = true → repeated = true) ∧ ∃ base, IsBase base ∧
      write = (if packed then "Packed" else if repeated then "Repeated" else "") ++ base ∧
      read = (if packed then "Packed" else "") ++ base := by
  have hList := isList_eq hPlan hp
  have hContent := content_of_plan hPlan hp
  rw [h] at hList
  refine ⟨hList, ?_⟩
  rw [Scope.storage] at hContent
  cases hMap : scope.mapOf? p.slot.descriptor with
  | some entry => simp [hMap, h] at hContent
  | none =>
      by_cases hMessage : p.slot.descriptor.isMessage
      · simp [hMap, hMessage, h] at hContent
      · simp only [hMap, hMessage, h, Content.scalar.injEq, Bool.false_eq_true, if_false] at hContent
        obtain ⟨write', read', ⟨rfl, rfl, rfl, rfl⟩, hWrite, hRead⟩ := hContent
        obtain ⟨base, hBase, rfl⟩ := routineWith_eq_ok hWrite
        obtain ⟨base', hBase', rfl⟩ := routineWith_eq_ok hRead
        obtain rfl : base = base' := Option.some.inj (hBase.symm.trans hBase')
        refine ⟨?_, _, isBase_routine hBase _, rfl, rfl⟩
        simp only [FieldDescriptor.isPacked, FieldDescriptor.isPackable, Bool.and_eq_true]
        exact fun hPacked => hPacked.1.1

theorem message_content (legal : m.Legal scope) {typeName write : String} {repeated : Bool}
    (h : p.content = .message typeName repeated write) :
    p.slot.isList = repeated ∧ scope.mapOf? p.slot.descriptor = none ∧
      p.slot.descriptor.isMessage ∧ typeName = p.slot.descriptor.typeName ∧
      write = (if repeated then "Repeated" else "") ++ "Message" := by
  have hList := isList_eq hPlan hp
  have hContent := content_of_plan hPlan hp
  obtain ⟨hField, -, -⟩ := property_of_plan hPlan hp
  rw [h] at hList
  rw [Scope.storage] at hContent
  cases hMap : scope.mapOf? p.slot.descriptor with
  | some entry => simp [hMap, h] at hContent
  | none =>
      by_cases hMessage : p.slot.descriptor.isMessage
      · simp only [hMap, hMessage, h, Content.message.injEq, if_true] at hContent
        obtain ⟨write', ⟨rfl, rfl, rfl⟩, hWrite⟩ := hContent
        have hType : p.slot.descriptor.type = .message := by
          simpa [FieldDescriptor.isMessage] using hMessage
        have hPacked : p.slot.descriptor.isPacked = false := by
          simp [FieldDescriptor.isPacked, FieldDescriptor.isPackable, hType, FieldType.isPackable]
        refine ⟨hList, rfl, hMessage, rfl, ?_⟩
        rw [routine_of_message hMessage (legal.strings _ hField hMessage) hWrite, hPacked]
        rfl
      · simp [hMap, hMessage, h] at hContent

/-- A list of messages is a repeated field. -/
theorem message_isRepeated {typeName write : String} {repeated : Bool}
    (h : p.content = .message typeName repeated write) :
    p.slot.descriptor.isRepeated = repeated := by
  have hContent := content_of_plan hPlan hp
  rw [Scope.storage] at hContent
  cases hMap : scope.mapOf? p.slot.descriptor with
  | some entry => simp [hMap, h] at hContent
  | none =>
      by_cases hMessage : p.slot.descriptor.isMessage
      · simp only [hMap, hMessage, h, Content.message.injEq, if_true] at hContent
        obtain ⟨write', ⟨-, hRepeated, -⟩, -⟩ := hContent
        exact hRepeated.symm
      · simp [hMap, hMessage, h] at hContent

theorem map_content (legal : m.Legal scope) {key value : MapSide}
    (h : p.content = .map key value) :
    p.slot.isList = false ∧ p.slot.descriptor.oneofIndex? = none ∧
      (∃ entry, scope.mapOf? p.slot.descriptor = some entry ∧ entry.value = value.descriptor) ∧
      IsBase key.routine ∧ IsBase value.routine ∧
      (value.descriptor.isMessage → value.routine = "Message") := by
  have hList := isList_eq hPlan hp
  have hContent := content_of_plan hPlan hp
  obtain ⟨hField, -, -⟩ := property_of_plan hPlan hp
  rw [h] at hList
  rw [Scope.storage] at hContent
  cases hMap : scope.mapOf? p.slot.descriptor with
  | none =>
      by_cases hMessage : p.slot.descriptor.isMessage <;> simp [hMap, hMessage, h] at hContent
  | some entry =>
      simp only [hMap, h, Content.map.injEq] at hContent
      obtain ⟨key', value', ⟨rfl, rfl⟩, hKey, hValue⟩ := hContent
      obtain ⟨hKeySingle, hValueSingle⟩ := legal.maps _ hField entry hMap
      obtain ⟨-, hKeyBase, -⟩ := mapSide_eq_ok hKey hKeySingle
      obtain ⟨hDescriptor, hValueBase, hValueMessage⟩ := mapSide_eq_ok hValue hValueSingle
      refine ⟨hList, ?_, ⟨entry, rfl, hDescriptor.symm⟩, hKeyBase, hValueBase, ?_⟩
      · by_contra hOneof
        rw [(legal.members _ hField hOneof).2] at hMap
        cases hMap
      · intro hMessage
        rw [hDescriptor] at hMessage
        exact hValueMessage hMessage (legal.mapStrings _ hField entry hMap hMessage)

end Contents

end Protoscribe

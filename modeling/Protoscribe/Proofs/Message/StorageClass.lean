import Protoscribe.Proofs.Message.Admission
import Protoscribe.Proofs.Message.Places

set_option autoImplicit false

/-! # How a field is stored

A field is stored as an array, as a map or as a single value. Main statement: `stores_iff`, every
place of a generated class that treats a field shows one and the same of the three
(`Places.Stores`), namely the one that the descriptor of the field asks for
(`Scope.storageClass`). Packed routines write and read exactly the arrays that are marked so and
whose elements can be packed.

No part of the generator asks for the class of a field. The type of the property tests the label
and the known map entries, the routines test the label again, and everything else follows the
content of the plan. What the content is by the field alone is `Scope.Carries`; for each place there
is one lemma, by cases on it.
-/

namespace Protoscribe

open TypeScript Evaluation Checked

/-! ## The three classes -/

/-- The ways to store the values of a field. -/
inductive StorageClass where
  | array
  | map
  | single
  deriving DecidableEq

/-- The class that a field asks for: a map when a map entry is known for its type, and else an
array when it repeats. -/
def Scope.storageClass (scope : Scope) (f : FieldDescriptor) : StorageClass :=
  if (scope.mapOf? f).isSome then .map else if f.isRepeated then .array else .single

/-- The class that the type of a property shows. -/
def TypeScript.Ty.storageClass : Ty → StorageClass
  | .array _ => .array
  | .reference "Map" [_, _] => .map
  | _ => .single

/-- The class that the type of a property of a plain object shows; a map is an index signature
there. -/
def TypeScript.Ty.plainClass : Ty → StorageClass
  | .array _ => .array
  | .record [] (some _) => .map
  | _ => .single

/-- The listed properties of an object type. -/
def TypeScript.Ty.properties : Ty → List (PropertyType Ty)
  | .record properties _ => properties
  | _ => []

/-- The name of the function that an expression calls on an object. -/
def TypeScript.Expr.called? : Expr → Option String
  | .call (.member _ name) _ => some name
  | _ => none

/-- A name of a routine that carries several values. -/
def IsListRoutine (routine : String) : Prop :=
  ∃ start ∈ ["Repeated", "Packed"], ∃ base, routine = start ++ base

/-- The statements that write a field, by the class that they show: a value that is there is
written at once, by a routine for several values or for one, and a map entry by entry, the key under
tag 1 and the value under tag 2. -/
inductive FieldDescriptor.WritesAs (f : FieldDescriptor) : StorageClass → Stmt → Prop
  | array {test : Expr} {routine : String} {more : List Expr} (many : IsListRoutine routine) :
      f.WritesAs .array (.guarded test
        [.expr (Codec.write routine (.int f.number :: .member .thisRef f.name :: more))])
  | single {test : Expr} {routine : String} {more : List Expr} (one : IsBase routine) :
      f.WritesAs .single (.guarded test
        [.expr (Codec.write routine (.int f.number :: .member .thisRef f.name :: more))])
  | map {keyRoutine valueRoutine : String} {more : List Expr} :
      f.WritesAs .map (.forOf (.elements ["key", "value"]) (.member .thisRef f.name)
        [.expr (Codec.write "Message" [.int f.number, .member .thisRef f.name,
          .arrowBlock [] none
            [.expr (Codec.write keyRoutine [.int 1, .ident "key"]),
              .expr (Codec.write valueRoutine (.int 2 :: .ident "value" :: more))]])])

/-- The expressions that read a field, by the class that they show: an array is assigned when it
comes packed and is else appended to, a map goes through the runtime's class of maps, and a single
value is assigned. -/
inductive Scope.ReadsAs (scope : Scope) (f : FieldDescriptor) : StorageClass → Expr → Prop
  | element {routine : String} :
      scope.ReadsAs f .array (scope.runtimeCall "addToRepeatedField"
        [.ident "message", .int f.number, Codec.reader.method ("read" ++ routine) []])
  | messageElement {item type : Expr} :
      scope.ReadsAs f .array (Codec.readMessage (.member (.ident "message") f.name)
        (scope.runtimeCall "addToRepeatedWrapperField"
          [.ident "message", .int f.number, item, type]))
  | packed {base : String} :
      scope.ReadsAs f .array (.assign (.member (.ident "message") f.name)
        (Codec.reader.method ("read" ++ ("Packed" ++ base)) []))
  | map {type : Ty} {key value : Expr} :
      scope.ReadsAs f .map (Codec.readMessage (.ident "message")
        (Expr.method (.member (.ident scope.runtime) "Map") "deserializeBinary"
          [.cast (.member (.ident "message") f.name) type, Codec.reader, key, value]))
  | single {routine : String} (one : IsBase routine) :
      scope.ReadsAs f .single (.assign (.member (.ident "message") f.name)
        (Codec.reader.method ("read" ++ routine) []))
  | message {item : Expr} :
      scope.ReadsAs f .single (Codec.readMessage (.member (.ident "message") f.name)
        (.assign (.member (.ident "message") f.name) item))

/-- Whether a statement writes several values into one record. -/
def TypeScript.Stmt.packs : Stmt → Bool
  | .branch _ [.expr (.call (.member _ name) _)] none =>
    (Text.afterStart? "writePacked" name).isSome
  | _ => false

/-- Whether an expression reads several values from one record. -/
def TypeScript.Expr.unpacks : Expr → Bool
  | .binary _ "=" (.call (.member _ name) _) => (Text.afterStart? "readPacked" name).isSome
  | _ => false

/-- The places of a class show that the field at a position is stored in a class. -/
structure Places.Stores (places : Places) (scope : Scope) (i : Nat) (f : FieldDescriptor)
    (c : StorageClass) : Prop where
  getter : ∃ read type, places.getters[i]? = some (f.name, read, type) ∧ type.storageClass = c ∧
    (read.called? = some "getRepeatedWrapperField" ↔ f.isMessage ∧ c = .array)
  setter : ∃ type store, places.setters[i]? = some (f.name, type, store) ∧
    type.storageClass = c ∧
    (store.called? = some "setRepeatedWrapperField" ↔ f.isMessage ∧ c = .array)
  listed : f.number ∈ places.lists ↔ c = .array
  written : ∃ s, places.writes[i]? = some s ∧ f.WritesAs c s ∧
    (s.packs ↔ c = .array ∧ f.type.isPackable ∧ f.packed)
  read : ∃ e, places.reads[i]? = some (.int f.number, [.expr e, .leave]) ∧
    scope.ReadsAs f c e ∧ (e.unpacks ↔ c = .array ∧ f.type.isPackable ∧ f.packed)
  plain : ∀ conversion ∈ [places.incoming, places.outgoing],
    ∃ p, conversion.type.properties[i]? = some p ∧ p.name = f.name ∧ p.type.plainClass = c

/-! ## What a property carries -/

/-- The start of the name of the routine that writes a field, which tells how many values it
carries. -/
def FieldDescriptor.writeStart (f : FieldDescriptor) : String :=
  if f.isPacked then "Packed" else if f.isRepeated then "Repeated" else ""

/-- The contents that a field asks for. The type of a message and the sides of a map are left open,
and so are the names of routines behind their starts. -/
inductive Scope.Carries (scope : Scope) (f : FieldDescriptor) : Content → Prop
  | map {entry : MapEntry} {key value : MapSide} (known : scope.mapOf? f = some entry) :
      scope.Carries f (.map key value)
  | message {typeName base : String} (unknown : scope.mapOf? f = none) (holds : f.isMessage)
      (one : IsBase base) :
      scope.Carries f (.message typeName f.isRepeated (f.writeStart ++ base))
  | scalar {base : String} (unknown : scope.mapOf? f = none) (holds : f.isMessage = false)
      (one : IsBase base) :
      scope.Carries f (.scalar f.isRepeated f.isPacked (f.writeStart ++ base)
        ((if f.isPacked then "Packed" else "") ++ base))

section Planned

variable {scope : Scope} {m : MessageDescriptor} {plan : Plan} {p : Property}

theorem storageClass_of_known {f : FieldDescriptor} {entry : MapEntry}
    (known : scope.mapOf? f = some entry) : scope.storageClass f = .map := by
  rw [Scope.storageClass, known]
  rfl

theorem storageClass_of_unknown {f : FieldDescriptor} (unknown : scope.mapOf? f = none) :
    scope.storageClass f = if f.isRepeated then .array else .single := by
  rw [Scope.storageClass, unknown]
  rfl

/-- A property of a plan carries what its field asks for. -/
theorem carries_of_plan (hPlan : scope.plan m = .ok plan) (hp : p ∈ plan.properties) :
    scope.Carries p.slot.descriptor p.content := by
  have hContent := content_of_plan hPlan hp
  rw [Scope.storage] at hContent
  cases hMap : scope.mapOf? p.slot.descriptor with
  | some entry =>
      simp only [hMap] at hContent
      obtain ⟨key, value, hContent, -, -⟩ := hContent
      rw [hContent]
      exact .map hMap
  | none =>
      by_cases hMessage : p.slot.descriptor.isMessage
      · simp only [hMap, hMessage, if_true] at hContent
        obtain ⟨write, hContent, hWrite⟩ := hContent
        obtain ⟨base, hBase, rfl⟩ := routineWith_eq_ok hWrite
        rw [hContent]
        exact .message hMap hMessage (isBase_routine hBase _)
      · simp only [hMap, hMessage, Bool.false_eq_true, if_false] at hContent
        obtain ⟨write, read, hContent, hWrite, hRead⟩ := hContent
        obtain ⟨base, hBase, rfl⟩ := routineWith_eq_ok hWrite
        obtain ⟨base', hBase', rfl⟩ := routineWith_eq_ok hRead
        -- both routines are named after the type of the field
        obtain rfl : base = base' := Option.some.inj (hBase.symm.trans hBase')
        rw [hContent]
        exact .scalar hMap (Bool.not_eq_true _ ▸ hMessage) (isBase_routine hBase _)

/-! ## The type of a property -/

/-- Types that are no maps are names. -/
theorem plainType_named {f : FieldDescriptor} {type : Ty} (h : scope.plainType f = .ok type) :
    ∃ name, type = .named name := by
  rw [Scope.plainType] at h
  split at h
  · exact ⟨_, (Except.ok.inj h).symm⟩
  · split at h
    all_goals first
      | exact ⟨_, (Except.ok.inj h).symm⟩
      | cases h

theorem valueType_shape {f : FieldDescriptor} {type : Ty} (h : scope.valueType f = .ok type) :
    match scope.mapOf? f with
    | some _ => ∃ key value, type = .reference "Map" [key, value]
    | none => ∃ name, type = .named name := by
  rw [Scope.valueType, Scope.mapSteps, Scope.valueTypeWithin] at h
  cases hMap : scope.mapOf? f with
  | none =>
      rw [hMap] at h
      exact plainType_named h
  | some entry =>
      rw [hMap] at h
      obtain ⟨key, -, h⟩ := bind_eq_ok.1 h
      obtain ⟨value, -, h⟩ := bind_eq_ok.1 h
      exact ⟨key, value, (pure_eq_ok.1 h).symm⟩

/-- The type of a property shows the class of its field, also where it is the type in a plain
object. -/
theorem propertyType_class {f : FieldDescriptor} {type : Ty} (h : scope.propertyType f = .ok type) :
    type.storageClass = scope.storageClass f ∧
      (scope.mapOf? f = none → type.plainClass = scope.storageClass f) := by
  obtain ⟨value, hValue, h⟩ := bind_eq_ok.1 h
  obtain rfl := pure_eq_ok.1 h
  have hShape := valueType_shape hValue
  cases hMap : scope.mapOf? f with
  | some entry =>
      rw [hMap] at hShape
      obtain ⟨keyType, valueType, rfl⟩ := hShape
      simp [Ty.storageClass, storageClass_of_known hMap]
  | none =>
      rw [hMap] at hShape
      obtain ⟨name, rfl⟩ := hShape
      rw [storageClass_of_unknown hMap]
      cases f.isRepeated <;> simp [Ty.storageClass, Ty.plainClass, Ty.named]

theorem type_class (hPlan : scope.plan m = .ok plan) (hp : p ∈ plan.properties) :
    p.type.storageClass = scope.storageClass p.slot.descriptor ∧
      (scope.mapOf? p.slot.descriptor = none →
        p.type.plainClass = scope.storageClass p.slot.descriptor) :=
  propertyType_class ((typed_of_plan hPlan).types p hp)

theorem plainProperty_class (hPlan : scope.plan m = .ok plan) (hp : p ∈ plan.properties) :
    (scope.plainProperty p).plainClass = scope.storageClass p.slot.descriptor := by
  have hCarries := carries_of_plan hPlan hp
  have hType := (type_class hPlan hp).2
  rw [Scope.plainProperty]
  generalize p.content = content at hCarries ⊢
  cases hCarries with
  | map known => simp [Ty.plainClass, Ty.indexed, storageClass_of_known known]
  | message unknown =>
      rw [storageClass_of_unknown unknown]
      cases p.slot.descriptor.isRepeated <;> simp [Ty.plainClass, Scope.plainMessage]
  | scalar unknown => exact hType unknown

/-! ## Storage -/

/-- The runtime is told of the arrays, and of nothing else. -/
theorem isList_iff (hPlan : scope.plan m = .ok plan) (hp : p ∈ plan.properties) :
    p.slot.isList ↔ scope.storageClass p.slot.descriptor = .array := by
  have hCarries := carries_of_plan hPlan hp
  rw [isList_eq hPlan hp]
  generalize p.content = content at hCarries ⊢
  cases hCarries with
  | map known => simp [storageClass_of_known known]
  | message unknown => simp [storageClass_of_unknown unknown]
  | scalar unknown => simp [storageClass_of_unknown unknown]

theorem isMap_iff_class (hPlan : scope.plan m = .ok plan) (hp : p ∈ plan.properties) :
    p.isMap ↔ scope.storageClass p.slot.descriptor = .map := by
  have hCarries := carries_of_plan hPlan hp
  rw [Property.isMap]
  generalize p.content = content at hCarries ⊢
  cases hCarries with
  | map known => simp [storageClass_of_known known]
  | message unknown =>
      rw [storageClass_of_unknown unknown]
      cases p.slot.descriptor.isRepeated <;> simp
  | scalar unknown =>
      rw [storageClass_of_unknown unknown]
      cases p.slot.descriptor.isRepeated <;> simp

theorem mem_listNumbers_iff (hPlan : scope.plan m = .ok plan) (distinct : m.DistinctNumbers)
    (hp : p ∈ plan.properties) :
    p.number ∈ Instance.listNumbers plan ↔ scope.storageClass p.slot.descriptor = .array := by
  rw [← isList_iff hPlan hp, Instance.listNumbers, List.mem_map]
  constructor
  · rintro ⟨q, hq, hNumber⟩
    obtain ⟨hq, hList⟩ := List.mem_filter.1 hq
    obtain rfl := eq_of_number_eq hPlan distinct hq hp hNumber
    exact hList
  · exact fun hList => ⟨p, List.mem_filter.2 ⟨hp, hList⟩, rfl⟩

theorem stored_called (h : scope.Carries p.slot.descriptor p.content) :
    (Access.stored scope p).called? = some "getRepeatedWrapperField" ↔
      p.slot.descriptor.isMessage ∧ scope.storageClass p.slot.descriptor = .array := by
  rw [Access.stored]
  generalize p.content = content at h ⊢
  cases h with
  | map known => simp [Expr.called?, storageClass_of_known known]
  | message unknown holds =>
      rw [storageClass_of_unknown unknown]
      cases p.slot.descriptor.isRepeated <;>
        simp [Expr.called?, Scope.runtimeCall, Expr.method, holds]
  | scalar unknown holds =>
      cases Access.declaredDefault? scope p.slot.descriptor <;>
        simp [Expr.called?, Scope.runtimeCall, Expr.method, holds]

theorem store_called (h : scope.Carries p.slot.descriptor p.content)
    (alone : scope.storageClass p.slot.descriptor = .array → plan.numbersBeside? p = none) :
    (Access.store scope plan p).called? = some "setRepeatedWrapperField" ↔
      p.slot.descriptor.isMessage ∧ scope.storageClass p.slot.descriptor = .array := by
  rw [Access.store]
  cases hBeside : plan.numbersBeside? p with
  | some numbers =>
      -- the setter of a member of a oneof is of another name, and the member is no array
      rw [hBeside] at alone
      have hClass := mt alone (Option.some_ne_none numbers)
      generalize p.content = content at h ⊢
      cases h <;> simp [Expr.called?, Scope.runtimeCall, Expr.method, hClass]
  | none =>
      generalize p.content = content at h ⊢
      cases h with
      | map known =>
          simp [Expr.called?, Scope.runtimeCall, Expr.method, storageClass_of_known known]
      | message unknown holds =>
          rw [storageClass_of_unknown unknown]
          cases p.slot.descriptor.isRepeated <;>
            simp [Expr.called?, Scope.runtimeCall, Expr.method, holds]
      | scalar unknown holds => simp [Expr.called?, Scope.runtimeCall, Expr.method, holds]

/-! ## The wire -/

/-- What the name of a routine starts with, behind a word that all names start with. -/
theorem afterStart?_isSome_append (word start rest : String) :
    (Text.afterStart? (word ++ start) (word ++ rest)).isSome =
      (Text.afterStart? start rest).isSome := by
  rw [Bool.eq_iff_iff, Option.isSome_iff_exists, Option.isSome_iff_exists]
  refine exists_congr fun tail => ?_
  rw [Text.afterStart?_eq_some, Text.afterStart?_eq_some, String.append_assoc,
    String.append_right_inj]

/-- Packing asks for a list of values that can be packed. -/
theorem isPacked_iff {f : FieldDescriptor} (unknown : scope.mapOf? f = none) :
    f.isPacked ↔ scope.storageClass f = .array ∧ f.type.isPackable ∧ f.packed := by
  rw [storageClass_of_unknown unknown]
  cases hRepeated : f.isRepeated <;>
    simp [FieldDescriptor.isPacked, FieldDescriptor.isPackable, hRepeated]

theorem isRepeated_of_isPacked {f : FieldDescriptor} (h : f.isPacked) : f.isRepeated := by
  simp only [FieldDescriptor.isPacked, FieldDescriptor.isPackable, Bool.and_eq_true] at h
  exact h.1.1

/-- The name of a writing routine starts with the word for packing only for packed fields. -/
theorem afterStart?_writeStart {f : FieldDescriptor} {base : String} (one : IsBase base) :
    (Text.afterStart? "Packed" (f.writeStart ++ base)).isSome = f.isPacked := by
  rw [FieldDescriptor.writeStart]
  cases f.isPacked with
  | true => simp [Text.afterStart?_eq_some.2 rfl]
  | false =>
      cases f.isRepeated with
      | true => simp [Text.afterStart?, String.toList_append, List.isPrefixOf]
      | false => simp [one.2]

theorem isPacked_of_message {f : FieldDescriptor} (h : f.isMessage) : f.isPacked = false := by
  have hType : f.type = .message := by simpa [FieldDescriptor.isMessage] using h
  simp [FieldDescriptor.isPacked, FieldDescriptor.isPackable, hType, FieldType.isPackable]

/-- The statement that writes an array or a single value at once. -/
theorem guarded_writesAs {f : FieldDescriptor} {base : String} (unknown : scope.mapOf? f = none)
    (one : IsBase base) (test : Expr) (more : List Expr) :
    let s : Stmt := .guarded test [.expr
      (Codec.write (f.writeStart ++ base) (.int f.number :: .member .thisRef f.name :: more))]
    f.WritesAs (scope.storageClass f) s ∧
      (s.packs ↔ scope.storageClass f = .array ∧ f.type.isPackable ∧ f.packed) := by
  intro s
  have hPacks : s.packs = f.isPacked := by
    have hWord : "writePacked" = "write" ++ "Packed" := by decide
    rw [← afterStart?_writeStart one, ← afterStart?_isSome_append "write", ← hWord]
    rfl
  refine ⟨?_, by rw [hPacks, isPacked_iff unknown]⟩
  cases hRepeated : f.isRepeated with
  | true =>
      have hClass : scope.storageClass f = .array := by
        simp [storageClass_of_unknown unknown, hRepeated]
      have hMany : IsListRoutine (f.writeStart ++ base) := by
        cases hPacked : f.isPacked with
        | false =>
            exact ⟨"Repeated", by simp, base,
              by simp [FieldDescriptor.writeStart, hPacked, hRepeated]⟩
        | true => exact ⟨"Packed", by simp, base, by simp [FieldDescriptor.writeStart, hPacked]⟩
      rw [hClass]
      exact .array hMany
  | false =>
      have hClass : scope.storageClass f = .single := by
        simp [storageClass_of_unknown unknown, hRepeated]
      -- what does not repeat is not packed either
      have hStart : f.writeStart = "" := by
        simp [FieldDescriptor.writeStart, FieldDescriptor.isPacked, FieldDescriptor.isPackable,
          hRepeated]
      rw [hClass]
      exact .single (by rwa [hStart, String.empty_append])

theorem writeProperty_class (h : scope.Carries p.slot.descriptor p.content) :
    p.slot.descriptor.WritesAs (scope.storageClass p.slot.descriptor)
        (Codec.writeProperty scope p) ∧
      ((Codec.writeProperty scope p).packs ↔
        scope.storageClass p.slot.descriptor = .array ∧ p.slot.descriptor.type.isPackable ∧
          p.slot.descriptor.packed) := by
  rw [Codec.writeProperty]
  generalize p.content = content at h ⊢
  cases h with
  | map known =>
      rw [storageClass_of_known known]
      exact ⟨.map, by simp [Codec.writeMap, Stmt.packs]⟩
  | message unknown holds one =>
      cases p.slot.descriptor.isRepeated with
      | true => exact guarded_writesAs unknown one _ _
      | false => exact guarded_writesAs unknown one _ _
  | scalar unknown holds one => exact guarded_writesAs unknown one _ _

/-- What is read at once is several values exactly where the name says so. -/
theorem unpacks_assign {base : String} (one : IsBase base) (packed : Bool) (target : Expr) :
    (Expr.assign target (Codec.reader.method
      ("read" ++ ((if packed then "Packed" else "") ++ base)) [])).unpacks = packed := by
  have hWord : "readPacked" = "read" ++ "Packed" := by decide
  change (Text.afterStart? "readPacked"
    ("read" ++ ((if packed then "Packed" else "") ++ base))).isSome = packed
  rw [hWord, afterStart?_isSome_append]
  cases packed with
  | true => simp [Text.afterStart?_eq_some.2 rfl]
  | false => simp [one.2]

theorem readProperty_class (h : scope.Carries p.slot.descriptor p.content) :
    scope.ReadsAs p.slot.descriptor (scope.storageClass p.slot.descriptor)
        (Codec.readProperty scope p) ∧
      ((Codec.readProperty scope p).unpacks ↔
        scope.storageClass p.slot.descriptor = .array ∧ p.slot.descriptor.type.isPackable ∧
          p.slot.descriptor.packed) := by
  rw [Codec.readProperty]
  generalize p.content = content at h ⊢
  cases h with
  | map known =>
      rw [storageClass_of_known known]
      exact ⟨.map, by simp [Codec.readMessage, Expr.method, Expr.unpacks]⟩
  | message unknown holds one =>
      rw [← isPacked_iff unknown, isPacked_of_message holds, storageClass_of_unknown unknown]
      cases p.slot.descriptor.isRepeated with
      | true => exact ⟨.messageElement, by simp [Codec.readMessage, Expr.method, Expr.unpacks]⟩
      | false => exact ⟨.message, by simp [Codec.readMessage, Expr.method, Expr.unpacks]⟩
  | scalar unknown holds one =>
      -- packed values repeat, so a label and a mark leave three ways to read
      have hRepeats := isRepeated_of_isPacked (f := p.slot.descriptor)
      rw [← isPacked_iff unknown, storageClass_of_unknown unknown]
      cases hRepeated : p.slot.descriptor.isRepeated <;>
        cases hPacked : p.slot.descriptor.isPacked
      case false.false =>
        exact ⟨.single (by simpa using one), Bool.eq_iff_iff.1 (unpacks_assign one false _)⟩
      case false.true => exact absurd (hRepeats hPacked) (by simp [hRepeated])
      case true.false => exact ⟨.element, by simp [Scope.runtimeCall, Expr.method, Expr.unpacks]⟩
      case true.true => exact ⟨.packed, Bool.eq_iff_iff.1 (unpacks_assign one true _)⟩

/-! ## Every place -/

/-- A list belongs to no oneof. -/
theorem numbersBeside?_list (hPlan : scope.plan m = .ok plan) (hp : p ∈ plan.properties)
    (members : ∀ f ∈ m.fields, f.oneofIndex? ≠ none → f.isRepeated = false ∧ scope.mapOf? f = none)
    (h : scope.storageClass p.slot.descriptor = .array) : plan.numbersBeside? p = none := by
  obtain ⟨hField, -, -⟩ := property_of_plan hPlan hp
  -- a member of a oneof neither repeats nor is a map, so it is no array
  have hAlone : p.slot.descriptor.oneofIndex? = none := by
    by_contra hOneof
    obtain ⟨hSingle, hMap⟩ := members _ hField hOneof
    simp [storageClass_of_unknown hMap, hSingle] at h
  apply numbersBeside?_none
  rw [slot_of_plan hPlan hp]
  simp [FieldDescriptor.oneof?, hAlone]

/-- The places of a planned class show the class of each field. -/
theorem stores_of_plan (hPlan : scope.plan m = .ok plan) (distinct : m.DistinctNumbers)
    (members : ∀ f ∈ m.fields, f.oneofIndex? ≠ none → f.isRepeated = false ∧ scope.mapOf? f = none)
    {i : Nat} (hi : plan.properties[i]? = some p) :
    (plan.places scope).Stores scope i p.slot.descriptor
      (scope.storageClass p.slot.descriptor) where
  getter := by
    have hp := List.mem_of_getElem? hi
    exact ⟨Access.stored scope p, p.type, by simp [Plan.places, hi, Property.name, Slot.name],
      (type_class hPlan hp).1, stored_called (carries_of_plan hPlan hp)⟩
  setter := by
    have hp := List.mem_of_getElem? hi
    exact ⟨p.type, Access.store scope plan p, by simp [Plan.places, hi, Property.name, Slot.name],
      (type_class hPlan hp).1,
      store_called (carries_of_plan hPlan hp) (numbersBeside?_list hPlan hp members)⟩
  listed := mem_listNumbers_iff hPlan distinct (List.mem_of_getElem? hi)
  written := ⟨Codec.writeProperty scope p, by simp [Plan.places, hi],
    writeProperty_class (carries_of_plan hPlan (List.mem_of_getElem? hi))⟩
  read := ⟨Codec.readProperty scope p, by
    simp [Plan.places, hi, Codec.readCase, Property.number, Slot.number],
    readProperty_class (carries_of_plan hPlan (List.mem_of_getElem? hi))⟩
  plain := by
    intro conversion hConversion
    have hType : conversion.type = scope.plainRecord plan := by
      simp only [List.mem_cons, List.not_mem_nil, or_false, Plan.places] at hConversion
      rcases hConversion with rfl | rfl <;> rfl
    refine ⟨⟨p.name, p.optional, scope.plainProperty p⟩, ?_, rfl,
      plainProperty_class hPlan (List.mem_of_getElem? hi)⟩
    simp [hType, Scope.plainRecord, Ty.ofProperties, Ty.properties, hi]

end Planned

/-- A field is stored in one class at most. -/
theorem Places.Stores.unique {places : Places} {scope : Scope} {i : Nat} {f : FieldDescriptor}
    {c d : StorageClass} (h : places.Stores scope i f c) (h' : places.Stores scope i f d) :
    c = d := by
  obtain ⟨read, type, hPlace, hClass, -⟩ := h.getter
  obtain ⟨read', type', hPlace', hClass', -⟩ := h'.getter
  obtain ⟨-, -, rfl⟩ : f.name = f.name ∧ read = read' ∧ type = type' := by
    simpa [hPlace] using hPlace'
  exact hClass.symm.trans hClass'

/-- **All places agree on how a field is stored.** -/
theorem stores_iff {scope : Scope} {m : MessageDescriptor} {decls : List Decl}
    (generated : scope.messageDecls m = .ok decls) (distinct : m.DistinctNumbers)
    (members : ∀ f ∈ m.fields, f.oneofIndex? ≠ none →
      f.isRepeated = false ∧ scope.mapOf? f = none) :
    ∃ decl inner places, decls = .classDecl decl :: inner ∧
      Places.of? decl.members = some places ∧
      places.fallbacks =
        (m.fields.filter (scope.storageClass · = .map)).map FieldDescriptor.name ∧
      ∀ i f, m.fields[i]? = some f → ∀ c, places.Stores scope i f c ↔ c = scope.storageClass f := by
  obtain ⟨plan, inner, hPlan, -, rfl⟩ := Scope.messageDecls_eq_ok.1 generated
  have hFields := plan_descriptors hPlan
  refine ⟨_, _, plan.places scope, rfl, places_members scope plan, ?_, ?_⟩
  · have hMaps : plan.properties.filter (·.isMap) =
        plan.properties.filter (scope.storageClass ·.slot.descriptor = .map) :=
      List.filter_congr fun p hp => by
        rw [Bool.eq_iff_iff, isMap_iff_class hPlan hp, decide_eq_true_iff]
    rw [Plan.places, hMaps, ← hFields, List.filter_map, List.map_map]
    rfl
  · intro i f hf c
    rw [← hFields, List.getElem?_map, Option.map_eq_some_iff] at hf
    obtain ⟨p, hi, rfl⟩ := hf
    have hStores := stores_of_plan hPlan distinct members hi
    exact ⟨fun h => h.unique hStores, fun h => h ▸ hStores⟩

/-- The entries of a map from texts to numbers. -/
def shareEntry : MapEntry :=
  ⟨⟨some "key", some 1, .optional, some 9, none, "", none, false, false, false⟩,
    ⟨some "value", some 2, .optional, some 5, none, "", none, false, false, false⟩⟩

/-- A message with texts that are marked as packed, packed numbers, a map, and a text in a oneof. -/
def ledger : MessageDescriptor :=
  ⟨some "Ledger",
    [⟨some "names", some 1, .repeated, some 9, none, "", none, false, true, false⟩,
      ⟨some "amounts", some 2, .repeated, some 5, none, "", none, false, true, false⟩,
      ⟨some "shares", some 3, .repeated, some 11, some ".Ledger.SharesEntry", "", none, false, true,
        false⟩,
      ⟨some "owner", some 4, .optional, some 9, none, "", some 0, false, false, false⟩],
    [], [], ["kind"], false⟩

def ledgerScope : Scope :=
  .ofFile (Registry.empty.declareMap ".Ledger.SharesEntry" shareEntry) .blank

theorem stores_iff_ledger :
    ∃ decl inner places, ledgerScope.messageDecls ledger = .ok (.classDecl decl :: inner) ∧
      ledger.DistinctNumbers ∧
      (∀ f ∈ ledger.fields, f.oneofIndex? ≠ none →
        f.isRepeated = false ∧ ledgerScope.mapOf? f = none) ∧
      Places.of? decl.members = some places ∧ places.fallbacks = ["shares"] ∧
      ledger.fields.map ledgerScope.storageClass = [.array, .array, .map, .single] ∧
      ∀ i f, ledger.fields[i]? = some f →
        ∀ c, places.Stores ledgerScope i f c ↔ c = ledgerScope.storageClass f := by
  obtain ⟨decls, hDecls⟩ : ∃ decls, ledgerScope.messageDecls ledger = .ok decls := ⟨_, rfl⟩
  have hDistinct : ledger.DistinctNumbers := by
    rw [MessageDescriptor.DistinctNumbers]
    decide
  have hMembers : ∀ f ∈ ledger.fields, f.oneofIndex? ≠ none →
      f.isRepeated = false ∧ ledgerScope.mapOf? f = none := by
    decide
  obtain ⟨decl, inner, places, rfl, hPlaces, hFallbacks, hStores⟩ :=
    stores_iff hDecls hDistinct hMembers
  exact ⟨decl, inner, places, hDecls, hDistinct, hMembers, hPlaces, hFallbacks.trans (by decide),
    by decide, hStores⟩

end Protoscribe

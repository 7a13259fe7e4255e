import Protoscribe.Proofs.Message.StorageClass

set_option autoImplicit false

/-! # The kind of a declared default

The getter of a field with a declared default hands the default to the runtime and gives what comes
back as the type of the field. The default is found from the declared type alone; the type of the
field is found from the map entries, the mark for strings and the declared type, in this order. Main
statement: `default_announced_iff`, a default is of the kind that the type announces exactly when
the field is not marked for strings. A marked field has the type `string`, but its default is still
written as a number.
-/

namespace Protoscribe

open TypeScript Checked

/-! ## Kinds -/

/-- Whether values of the type are integers of 64 bits; only these may be asked for as strings. -/
def FieldType.isLong : FieldType → Bool
  | .int64 | .uint64 | .fixed64 | .sfixed64 | .sint64 => true
  | _ => false

/-- The default of a field is of the kind that a type announces: a literal of the type, or a member
of the enum that the type names. -/
inductive Scope.Announces (scope : Scope) (f : FieldDescriptor) : Ty → Expr → Prop
  | string {content : String} : scope.Announces f (.named "string") (.string content)
  | boolean {value : Bool} : scope.Announces f (.named "boolean") (.bool value)
  | number {digits : String} : scope.Announces f (.named "number") (.number digits)
  | enum {name : String} (holds : f.type = .enum) :
      scope.Announces f (scope.typeRef f.typeName) (.member (scope.valueRef f.typeName) name)

section Field

variable {scope : Scope} {f : FieldDescriptor} {type : Ty} {value : Expr}

/-- A number is not the default of a text. -/
theorem not_announces_number {digits : String} :
    ¬ scope.Announces f (.named "string") (.number digits) := by
  intro h
  generalize hType : Ty.named "string" = type at h
  cases h
  simp [Ty.named] at hType

/-- The default of an integer of 64 bits is a number, whatever the field is marked for. -/
theorem default_of_long (long : f.type.isLong) (h : Access.declaredDefault? scope f = some value) :
    value = .number (Access.numberText f.defaultValue) := by
  rw [Access.declaredDefault?] at h
  split at h
  case isTrue => cases h
  case isFalse =>
      cases hType : f.type <;> rw [hType] at h long <;> cases long <;>
        exact (Option.some.inj h).symm

/-- Where strings are not asked for, type and default both follow the declared type. -/
theorem announces_of_unmarked (unmarked : f.jsString = false) (hType : scope.plainType f = .ok type)
    (h : Access.declaredDefault? scope f = some value) : scope.Announces f type value := by
  rw [Scope.plainType, if_neg (by simp [unmarked])] at hType
  rw [Access.declaredDefault?] at h
  split at h
  case isTrue => cases h
  case isFalse =>
      cases hDeclared : f.type <;> rw [hDeclared] at hType h <;> cases h <;> cases hType
      case bool => exact .boolean
      case string => exact .string
      case enum => exact .enum hDeclared
      all_goals exact .number

/-- **The kind of a declared default.** -/
theorem announces_iff (marked : f.jsString → f.type.isLong) (hType : scope.plainType f = .ok type)
    (h : Access.declaredDefault? scope f = some value) :
    scope.Announces f type value ↔ f.jsString = false := by
  cases hMark : f.jsString with
  | false => simpa using announces_of_unmarked hMark hType h
  | true =>
      -- the mark decides the type, and the default does not look at it
      have hString : type = .named "string" := by
        rw [Scope.plainType, if_pos hMark] at hType
        exact (Except.ok.inj hType).symm
      rw [hString, default_of_long (marked hMark) h]
      simp [not_announces_number]

end Field

/-! ## The getter -/

section Planned

variable {scope : Scope} {m : MessageDescriptor} {plan : Plan} {p : Property}

/-- The getter of a property hands over a default only when it is the declared one and the values
are scalars. -/
theorem declared_of_stored (hPlan : scope.plan m = .ok plan) (hp : p ∈ plan.properties)
    {value : Expr}
    (h : Access.stored scope p =
      scope.runtimeCall "getFieldWithDefault" [.thisRef, .int p.number, value]) :
    scope.mapOf? p.slot.descriptor = none ∧
      Access.declaredDefault? scope p.slot.descriptor = some value := by
  have hCarries := carries_of_plan hPlan hp
  rw [Access.stored] at h
  generalize p.content = content at hCarries h
  cases hCarries with
  | map known => simp [Scope.runtimeCall, Expr.method] at h
  | message unknown =>
      cases hRepeated : p.slot.descriptor.isRepeated <;>
        simp [Scope.runtimeCall, Expr.method, hRepeated] at h
  | scalar unknown =>
      refine ⟨unknown, ?_⟩
      cases hDefault : Access.declaredDefault? scope p.slot.descriptor with
      | none => simp [hDefault, Scope.runtimeCall, Expr.method] at h
      | some declared => simpa [hDefault, Scope.runtimeCall, Expr.method] using h

/-- A property that does not repeat has the type of one value. -/
theorem valueType_of_single (hPlan : scope.plan m = .ok plan) (hp : p ∈ plan.properties)
    (single : p.slot.descriptor.isRepeated = false) :
    scope.valueType p.slot.descriptor = .ok p.type := by
  have hType : scope.propertyType p.slot.descriptor = .ok p.type :=
    (typed_of_plan hPlan).types p hp
  obtain ⟨type, hValue, hType⟩ := bind_eq_ok.1 hType
  rw [single, Bool.false_and, if_neg Bool.false_ne_true] at hType
  rw [hValue, pure_eq_ok.1 hType]

theorem plainType_of_valueType {f : FieldDescriptor} {type : Ty} (unknown : scope.mapOf? f = none)
    (h : scope.valueType f = .ok type) : scope.plainType f = .ok type := by
  rw [Scope.valueType, Scope.mapSteps, Scope.valueTypeWithin, unknown] at h
  exact h

end Planned

/-- **A declared default has the kind of its property exactly when the field is not marked for
strings.** Every single field has a getter that gives the type of one value; where the getter hands
over a default, this is the kind that the type announces unless the field is marked. -/
theorem default_announced_iff {scope : Scope} {m : MessageDescriptor} {decls : List Decl}
    (generated : scope.messageDecls m = .ok decls) :
    ∃ decl inner places, decls = .classDecl decl :: inner ∧
      Places.of? decl.members = some places ∧
      ∀ (i : Nat) (f : FieldDescriptor), m.fields[i]? = some f →
        f.isRepeated = false → (f.jsString → f.type.isLong) →
        ∃ read type, places.getters[i]? = some (f.name, read, type) ∧
          scope.valueType f = .ok type ∧
          ∀ value, read = scope.runtimeCall "getFieldWithDefault" [.thisRef, .int f.number, value] →
            (scope.Announces f type value ↔ f.jsString = false) := by
  obtain ⟨plan, inner, hPlan, -, rfl⟩ := Scope.messageDecls_eq_ok.1 generated
  refine ⟨_, _, plan.places scope, rfl, places_members scope plan, ?_⟩
  intro i f hf single marked
  rw [← plan_descriptors hPlan, List.getElem?_map, Option.map_eq_some_iff] at hf
  obtain ⟨p, hi, rfl⟩ := hf
  have hp := List.mem_of_getElem? hi
  have hType := valueType_of_single hPlan hp single
  refine ⟨Access.stored scope p, p.type, by simp [Plan.places, hi, Property.name, Slot.name],
    hType, fun value hRead => ?_⟩
  obtain ⟨unknown, hDefault⟩ := declared_of_stored hPlan hp hRead
  exact announces_iff marked (plainType_of_valueType unknown hType) hDefault

/-- A number of 64 bits that is marked for strings and has a default. -/
def dialTotal : FieldDescriptor :=
  ⟨some "total", some 2, .optional, some 3, none, "5", none, false, false, true⟩

/-- A message with a number, a number marked for strings, a text, a truth value and a member of an
enum, all with defaults. -/
def dial : MessageDescriptor :=
  ⟨some "Dial",
    [⟨some "limit", some 1, .optional, some 3, none, "5", none, false, false, false⟩, dialTotal,
      ⟨some "unit", some 3, .optional, some 9, none, "V", none, false, false, false⟩,
      ⟨some "active", some 4, .optional, some 8, none, "true", none, false, false, false⟩,
      ⟨some "mode", some 5, .optional, some 14, some ".Mode", "AUTO", none, false, false, false⟩],
    [], [], [], false⟩

def dialScope : Scope := .ofFile .empty .blank

/-- The call that reads the field with a number, handing over a default. -/
def dialRead (number : Int) (value : Expr) : Expr :=
  dialScope.runtimeCall "getFieldWithDefault" [.thisRef, .int number, value]

def dialGetters : List (String × Expr × Ty) :=
  [("limit", dialRead 1 (.number "5"), .named "number"),
    ("total", dialRead 2 (.number "5"), .named "string"),
    ("unit", dialRead 3 (.string "V"), .named "string"),
    ("active", dialRead 4 (.bool true), .named "boolean"),
    ("mode", dialRead 5 (.member (.ident "Mode") "AUTO"), .named "Mode")]

theorem getters_dial {decl : ClassDecl} {inner : List Decl} {places : Places}
    (generated : dialScope.messageDecls dial = .ok (.classDecl decl :: inner))
    (hPlaces : Places.of? decl.members = some places) : places.getters = dialGetters := by
  obtain ⟨plan, _, hPlan, -, hDecl⟩ := Scope.messageDecls_eq_ok.1 generated
  cases hDecl
  obtain rfl := Option.some.inj ((places_members dialScope plan).symm.trans hPlaces)
  have hGetters : (dialScope.plan dial).map (fun plan => (plan.places dialScope).getters) =
      .ok dialGetters := rfl
  rw [hPlan] at hGetters
  exact Except.ok.inj hGetters

theorem default_announced_iff_dial :
    ∃ decl inner places, dialScope.messageDecls dial = .ok (.classDecl decl :: inner) ∧
      Places.of? decl.members = some places ∧ places.getters = dialGetters ∧
      (∀ f ∈ dial.fields, f.isRepeated = false ∧ (f.jsString → f.type.isLong)) ∧
      ∀ (i : Nat) (f : FieldDescriptor), dial.fields[i]? = some f →
        f.isRepeated = false → (f.jsString → f.type.isLong) →
        ∃ read type, places.getters[i]? = some (f.name, read, type) ∧
          dialScope.valueType f = .ok type ∧
          ∀ value, read = dialScope.runtimeCall "getFieldWithDefault"
              [.thisRef, .int f.number, value] →
            (dialScope.Announces f type value ↔ f.jsString = false) := by
  obtain ⟨decls, hDecls⟩ : ∃ decls, dialScope.messageDecls dial = .ok decls := ⟨_, rfl⟩
  obtain ⟨decl, inner, places, rfl, hPlaces, hDefaults⟩ := default_announced_iff hDecls
  exact ⟨decl, inner, places, hDecls, hPlaces, getters_dial hDecls hPlaces, by decide, hDefaults⟩

/-- The number that is marked for strings: its property is a string, but the default that its getter
hands over is the number `5`. -/
theorem marked_default_not_announced :
    ∃ decl inner places, dialScope.messageDecls dial = .ok (.classDecl decl :: inner) ∧
      Places.of? decl.members = some places ∧
      places.getters[1]? = some (dialTotal.name, dialScope.runtimeCall "getFieldWithDefault"
        [.thisRef, .int dialTotal.number, .number "5"], .named "string") ∧
      dial.fields[1]? = some dialTotal ∧ dialTotal.isRepeated = false ∧ dialTotal.type.isLong ∧
      dialScope.valueType dialTotal = .ok (.named "string") ∧
      ¬ dialScope.Announces dialTotal (.named "string") (.number "5") := by
  obtain ⟨decls, hDecls⟩ : ∃ decls, dialScope.messageDecls dial = .ok decls := ⟨_, rfl⟩
  obtain ⟨plan, inner, -, -, rfl⟩ := Scope.messageDecls_eq_ok.1 hDecls
  have hPlaces := places_members dialScope plan
  refine ⟨_, _, _, hDecls, hPlaces, ?_, rfl, rfl, rfl, rfl, not_announces_number⟩
  rw [getters_dial hDecls hPlaces]
  rfl

end Protoscribe

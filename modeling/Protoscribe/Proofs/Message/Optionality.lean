import Protoscribe.Proofs.Message.Contents
import Protoscribe.Proofs.Message.Places

set_option autoImplicit false

/-! # Which fields are always present

A field that may not be left out is a property without `?` in every type of its message, a key of
both object literals, and is copied without a test; any other field is copied under one test in
each of the three places that copy it. The test depends on the place, and where a message is
converted on whether the field is a map (`Expr.TestsPresence`). Main statement: `required_agrees`.

The types of the constructor and of the plain objects are built apart, and only the former treats
the members of a oneof in a way of its own: there they stand in alternatives in which every
property has a `?`. So the two agree because a member of a oneof may always be left out.
-/

namespace Protoscribe

open TypeScript Evaluation Checked

/-! ## Types -/

namespace TypeScript

mutual

/-- The names of the properties without `?` that an object type lists, through its parts. -/
def Ty.required : Ty → List String
  | .record properties _ => (properties.filter (!·.optional)).map PropertyType.name
  | .union members => requiredAll members
  | .intersection members => requiredAll members
  | _ => []

def requiredAll : List Ty → List String
  | [] => []
  | type :: rest => type.required ++ requiredAll rest

end

theorem requiredAll_eq_nil {types : List Ty} (h : ∀ type ∈ types, type.required = []) :
    requiredAll types = [] := by
  induction types with
  | nil => rfl
  | cons type rest ih =>
      rw [requiredAll, h type List.mem_cons_self,
        ih fun other hOther => h other (List.mem_cons_of_mem _ hOther), List.append_nil]

theorem required_ofProperties (properties : List (PropertyType Ty)) :
    (Ty.ofProperties properties).required =
      (properties.filter (!·.optional)).map PropertyType.name := by
  rw [Ty.ofProperties, Ty.required]

/-! ## Copies -/

/-- The values that are made from one expression: the expression itself, what one of its methods
gives, the list of what its items become, and what a function or a class makes of it. -/
inductive Expr.MadeFrom (source : Expr) : Expr → Prop
  | self : source.MadeFrom source
  | receiver {value : Expr} {name : String} (h : source.MadeFrom value) :
      source.MadeFrom (value.method name [])
  | mapped {value body : Expr} {params : List Param} (h : source.MadeFrom value) :
      source.MadeFrom (value.method "map" [.lambda params body])
  | argument {value callee : Expr} (h : source.MadeFrom value) :
      source.MadeFrom (.call callee [value])
  | constructed {value callee : Expr} (h : source.MadeFrom value) :
      source.MadeFrom (.construct callee [value])

/-- The places that copy the properties of a message. -/
inductive CopyPlace where
  /-- From a record to a new instance. -/
  | constructor
  /-- From a plain object to an instance. -/
  | incoming
  /-- From an instance to a plain object. -/
  | outgoing

/-- The object that a place copies from. -/
def CopyPlace.source : CopyPlace → Expr
  | .constructor => .ident "data"
  | .incoming => .ident "data"
  | .outgoing => .thisRef

/-- The object that a place copies to. -/
def CopyPlace.target : CopyPlace → Expr
  | .constructor => .thisRef
  | .incoming => .ident "message"
  | .outgoing => .ident "data"

/-- The test whether a property is there, in a place that copies it. A constructor asks for the key
too. A plain object has a map when the property is an object at all, and an instance has one when
there are entries in it; anything else is there when it is not `null`. -/
inductive Expr.TestsPresence (name : String) : CopyPlace → (isMap : Bool) → Expr → Prop
  | given (isMap : Bool) : Expr.TestsPresence name .constructor isMap
      (.and (.binary (.string name) "in" (.ident "data"))
        (.binary (.member (.ident "data") name) "!==" .undefined))
  | isObject : Expr.TestsPresence name .incoming true
      (.binary (.typeOf (.member (.ident "data") name)) "==" (.string "object"))
  | notEmpty : Expr.TestsPresence name .outgoing true
      (.binary (.member (.member .thisRef name) "size") ">" (.int 0))
  | notNull {place : CopyPlace} (converts : place ≠ .constructor) :
      Expr.TestsPresence name place false (.binary (.member place.source name) "!=" .null)

/-- The statements that copy a property in a place under a number of tests. -/
inductive Stmt.Copies (place : CopyPlace) (name : String) (isMap : Bool) : Nat → Stmt → Prop
  | assign {value : Expr} (made : Expr.MadeFrom (.member place.source name) value) :
      Stmt.Copies place name isMap 0 (.expr (.assign (.member place.target name) value))
  | tested {tests : Nat} {test : Expr} {s : Stmt}
      (presence : Expr.TestsPresence name place isMap test)
      (h : Stmt.Copies place name isMap tests s) :
      Stmt.Copies place name isMap (tests + 1) (.guarded test [s])

/-- The property that a statement copies without a test. -/
def Stmt.untested? : Stmt → Option String
  | .expr (.binary (.member _ name) "=" _) => some name
  | _ => none

end TypeScript

/-- The keys of the literal with what is always present. -/
def PlainPlaces.keys (places : PlainPlaces) : List String :=
  places.literal.map fun entry => propertyName entry.1

/-- A conversion has what is always present in its literal and copies the rest, each property from
its own and under one test; of the rest it is known which properties are maps. -/
structure PlainPlaces.Converts (places : PlainPlaces) (place : CopyPlace)
    (required : List String) (omittable : List (String × Bool)) : Prop where
  literal : List.Forall₂ (fun name entry => propertyName entry.1 = name ∧
    Expr.MadeFrom (.member place.source name) entry.2) required places.literal
  assignments : List.Forall₂ (fun property s => Stmt.Copies place property.1 property.2 1 s)
    omittable places.assignments

/-- The fields of a message that may be left out, or those that may not. -/
def Scope.fieldsWhere (scope : Scope) (m : MessageDescriptor) (omittable : Bool) :
    List FieldDescriptor :=
  m.fields.filter fun f => scope.file.mayOmit f = omittable

/-- The names of the fields of a message that may not be left out. -/
def Scope.requiredNames (scope : Scope) (m : MessageDescriptor) : List String :=
  (scope.fieldsWhere m false).map FieldDescriptor.name

/-- The names of the fields of a message that may be left out, each with whether it is a map. -/
def Scope.omittable (scope : Scope) (m : MessageDescriptor) : List (String × Bool) :=
  (scope.fieldsWhere m true).map fun f => (f.name, (scope.mapOf? f).isSome)

/-! ## The places of a plan -/

section Planned

variable {scope : Scope} {m : MessageDescriptor} {plan : Plan} {p : Property}

/-- A property is a map when its field is typed by a map entry. -/
theorem isMap_of_plan (hPlan : scope.plan m = .ok plan) (hp : p ∈ plan.properties) :
    p.isMap = (scope.mapOf? p.slot.descriptor).isSome := by
  have hContent := content_of_plan hPlan hp
  rw [Scope.storage] at hContent
  rw [Property.isMap]
  cases hMap : scope.mapOf? p.slot.descriptor with
  | some entry =>
      obtain ⟨key, value, hContent, -⟩ := hMap ▸ hContent
      rw [hContent]
      rfl
  | none =>
      simp only [hMap] at hContent
      by_cases hMessage : p.slot.descriptor.isMessage
      · obtain ⟨write, hContent, -⟩ := if_pos hMessage ▸ hContent
        rw [hContent]
        rfl
      · obtain ⟨write, read, hContent, -⟩ := if_neg hMessage ▸ hContent
        rw [hContent]
        rfl

theorem fieldsWhere_of_plan (hPlan : scope.plan m = .ok plan) (omittable : Bool) :
    (plan.properties.filter (·.optional = omittable)).map (·.slot.descriptor) =
      scope.fieldsWhere m omittable := by
  have hSame : plan.properties.filter (·.optional = omittable) =
      plan.properties.filter (scope.file.mayOmit ·.slot.descriptor = omittable) :=
    List.filter_congr fun p hp => by rw [optional_of_plan hPlan hp]
  rw [hSame, Scope.fieldsWhere, ← plan_descriptors hPlan, List.filter_map]
  rfl

theorem requiredNames_of_plan (hPlan : scope.plan m = .ok plan) :
    (plan.properties.filter (·.optional = false)).map Property.name = scope.requiredNames m := by
  rw [Scope.requiredNames, ← fieldsWhere_of_plan hPlan, List.map_map]
  rfl

theorem omittable_of_plan (hPlan : scope.plan m = .ok plan) :
    (plan.properties.filter (·.optional = true)).map (fun p => (p.name, p.isMap)) =
      scope.omittable m := by
  rw [Scope.omittable, ← fieldsWhere_of_plan hPlan, List.map_map]
  refine List.map_congr_left fun p hp => ?_
  rw [isMap_of_plan hPlan (List.mem_filter.1 hp).1]
  rfl

theorem filter_not_optional (properties : List Property) :
    properties.filter (!·.optional) = properties.filter (·.optional = false) :=
  List.filter_congr fun p _ => by cases p.optional <;> rfl

/-- No alternative of a oneof asks for a property. -/
theorem required_alternatives {index : Nat} {type : Ty} (h : plan.alternatives? index = some type) :
    type.required = [] := by
  rw [Plan.alternatives?] at h
  split at h
  · cases h
  · rename_i members hMembers
    obtain rfl := Option.some.inj h
    rw [Ty.required]
    refine requiredAll_eq_nil fun alternative hAlternative => ?_
    obtain ⟨chosen, -, rfl⟩ := List.mem_map.1 hAlternative
    rw [Plan.alternative, required_ofProperties, List.filter_eq_nil_iff.2 ?_, List.map_nil]
    intro property hProperty
    obtain ⟨member, -, rfl⟩ := List.mem_map.1 hProperty
    simp

theorem required_liveRecord : plan.liveRecord.required =
    (plan.ungrouped.filter (·.optional = false)).map Property.name := by
  have hUngrouped : plan.ungroupedRecord.required =
      (plan.ungrouped.filter (·.optional = false)).map Property.name := by
    rw [Plan.ungroupedRecord, required_ofProperties, ← filter_not_optional, List.filter_map,
      List.map_map]
    rfl
  rw [Plan.liveRecord]
  -- a oneof makes the type an intersection, and adds nothing that is asked for
  cases plan.oneofs with
  | nil => exact hUngrouped
  | cons first others =>
      rw [Ty.required, requiredAll, hUngrouped, requiredAll_eq_nil, List.append_nil]
      intro type hType
      obtain ⟨index, -, hIndex⟩ := List.mem_filterMap.1 hType
      exact required_alternatives hIndex

theorem required_of_plan (hPlan : scope.plan m = .ok plan)
    (members : ∀ f ∈ m.fields, f.oneofIndex? ≠ none → f.label = .optional) :
    plan.liveRecord.required = scope.requiredNames m := by
  have hUngrouped : plan.ungrouped.filter (·.optional = false) =
      plan.properties.filter (·.optional = false) := by
    rw [Plan.ungrouped, List.filter_filter]
    refine List.filter_congr fun p hp => ?_
    -- a member of a oneof is none of the properties that are asked for
    cases hOneof : p.slot.oneof with
    | none => simp
    | some index =>
        obtain ⟨hField, -, -⟩ := property_of_plan hPlan hp
        have hMember : p.slot.descriptor.oneofIndex? ≠ none := by
          rw [slot_of_plan hPlan hp] at hOneof
          obtain ⟨declared, hDeclared, -⟩ := Option.map_eq_some_iff.1 hOneof
          rw [hDeclared]
          exact Option.some_ne_none declared
        have hOptional := scope.file.mayOmit_of_optional (members _ hField hMember)
        rw [← optional_of_plan hPlan hp] at hOptional
        simp [hOptional]
  rw [required_liveRecord, hUngrouped, requiredNames_of_plan hPlan]

theorem required_plainRecord (hPlan : scope.plan m = .ok plan) :
    (scope.plainRecord plan).required = scope.requiredNames m := by
  rw [Scope.plainRecord, required_ofProperties, List.filter_map, List.map_map,
    ← requiredNames_of_plan hPlan, ← filter_not_optional]
  rfl

/-! ## The copies of a plan -/

theorem liveValue_made (scope : Scope) (p : Property) :
    Expr.MadeFrom (p.on "data") (Plain.liveValue scope p) := by
  rw [Plain.liveValue]
  split
  · rw [Plain.liveEntries]
    split
    · exact .constructed (.argument .self)
    · exact .constructed (.mapped (.argument .self))
  · exact .mapped .self
  · exact .argument .self
  · exact .self

theorem plainValue_made (scope : Scope) (p : Property) :
    Expr.MadeFrom p.onThis (Plain.plainValue scope p) := by
  rw [Plain.plainValue]
  split
  · rw [Plain.plainEntries]
    split
    · exact .argument (.mapped (.argument .self))
    · exact .argument .self
  · exact .mapped .self
  · exact .receiver .self
  · exact .self

theorem isGiven_tests (p : Property) :
    Expr.TestsPresence p.name .incoming p.isMap (Plain.isGiven p) := by
  rw [Plain.isGiven]
  cases p.isMap with
  | true => exact .isObject
  | false => exact .notNull CopyPlace.noConfusion

theorem isPresent_tests (p : Property) :
    Expr.TestsPresence p.name .outgoing p.isMap (Plain.isPresent p) := by
  rw [Plain.isPresent]
  cases p.isMap with
  | true => exact .notEmpty
  | false => exact .notNull CopyPlace.noConfusion

theorem copy_copies (p : Property) :
    Stmt.Copies .constructor p.name p.isMap (if p.optional then 1 else 0) (Instance.copy p) := by
  rw [Instance.copy]
  cases p.optional with
  | false => exact .assign .self
  | true => exact .tested (.given _) (.assign .self)

theorem untested?_copy (p : Property) :
    Stmt.untested? (Instance.copy p) = if p.optional then none else some p.name := by
  rw [Instance.copy]
  cases p.optional <;> rfl

theorem untested_copies (properties : List Property) :
    (properties.map Instance.copy).filterMap Stmt.untested? =
      (properties.filter (·.optional = false)).map Property.name := by
  induction properties with
  | nil => rfl
  | cons p rest ih =>
      rw [List.map_cons, List.filterMap_cons, untested?_copy, ih, List.filter_cons]
      cases p.optional <;> simp

/-- The keys and the assignments of a conversion that makes its values from the properties of one
object. -/
theorem converts_of_plan (hPlan : scope.plan m = .ok plan) (type : Ty) (place : CopyPlace)
    {target : String} (hTarget : place.target = .ident target) {test value : Property → Expr}
    (made : ∀ p : Property, Expr.MadeFrom (.member place.source p.name) (value p))
    (tests : ∀ p : Property, Expr.TestsPresence p.name place p.isMap (test p)) :
    let places : PlainPlaces :=
      ⟨type, plan.literal value, Plain.optionalAssignments plan target test value⟩
    places.keys = scope.requiredNames m ∧
      places.Converts place (scope.requiredNames m) (scope.omittable m) := by
  intro places
  have hLiteral : places.literal =
      (plan.properties.filter (·.optional = false)).map fun p => (.name p.name, value p) := by
    rw [← filter_not_optional]
    rfl
  have hAssignments : places.assignments = (plan.properties.filter (·.optional = true)).map fun p =>
      .guarded (test p) [.expr (.assign (.member place.target p.name) (value p))] := by
    have hSame : plan.properties.filter (·.optional) =
        plan.properties.filter (·.optional = true) :=
      List.filter_congr fun p _ => by cases p.optional <;> rfl
    rw [← hSame, hTarget]
    rfl
  -- names, keys and assignments are maps over the same properties
  rw [← requiredNames_of_plan hPlan, ← omittable_of_plan hPlan]
  refine ⟨?_, ?_, ?_⟩
  · rw [PlainPlaces.keys, hLiteral, List.map_map]
    rfl
  · rw [hLiteral, List.forall₂_map_left_iff, List.forall₂_map_right_iff, List.forall₂_same]
    exact fun p _ => ⟨rfl, made p⟩
  · rw [hAssignments, List.forall₂_map_left_iff, List.forall₂_map_right_iff, List.forall₂_same]
    exact fun p _ => .tested (tests p) (.assign (made p))

end Planned

/-- **Types and code agree on which fields are always present.** -/
theorem required_agrees {scope : Scope} {m : MessageDescriptor} {decls : List Decl}
    (generated : scope.messageDecls m = .ok decls)
    (members : ∀ f ∈ m.fields, f.oneofIndex? ≠ none → f.label = .optional) :
    ∃ decl inner places, decls = .classDecl decl :: inner ∧
      Places.of? decl.members = some places ∧
      (∀ names ∈ [places.incoming.keys, places.outgoing.keys, places.record.required,
          places.incoming.type.required, places.outgoing.type.required,
          places.copies.filterMap Stmt.untested?],
        names = scope.requiredNames m) ∧
      List.Forall₂ (fun f s => Stmt.Copies .constructor f.name (scope.mapOf? f).isSome
        (if scope.file.mayOmit f then 1 else 0) s) m.fields places.copies ∧
      places.incoming.Converts .incoming (scope.requiredNames m) (scope.omittable m) ∧
      places.outgoing.Converts .outgoing (scope.requiredNames m) (scope.omittable m) := by
  obtain ⟨plan, inner, hPlan, -, rfl⟩ := Scope.messageDecls_eq_ok.1 generated
  obtain ⟨hInKeys, hIn⟩ := converts_of_plan hPlan (scope.plainRecord plan) .incoming rfl
    (liveValue_made scope) isGiven_tests
  obtain ⟨hOutKeys, hOut⟩ := converts_of_plan hPlan (scope.plainRecord plan) .outgoing rfl
    (plainValue_made scope) isPresent_tests
  refine ⟨_, _, plan.places scope, rfl, places_members scope plan, ?_, ?_, hIn, hOut⟩
  · have hCopies : (plan.places scope).copies.filterMap Stmt.untested? = scope.requiredNames m :=
      (untested_copies plan.properties).trans (requiredNames_of_plan hPlan)
    simp only [List.forall_mem_cons, List.not_mem_nil, false_imp_iff, implies_true, and_true]
    exact ⟨hInKeys, hOutKeys, required_of_plan hPlan members, required_plainRecord hPlan,
      required_plainRecord hPlan, hCopies⟩
  · rw [← plan_descriptors hPlan, List.forall₂_map_left_iff, Plan.places,
      List.forall₂_map_right_iff, List.forall₂_same]
    intro p hp
    rw [← optional_of_plan hPlan hp, ← isMap_of_plan hPlan hp]
    exact copy_copies p

/-- The entries of a map from texts to texts. -/
def markEntry : MapEntry :=
  ⟨⟨some "key", some 1, .optional, some 9, none, "", none, false, false, false⟩,
    ⟨some "value", some 2, .optional, some 9, none, "", none, false, false, false⟩⟩

/-- A message with a required text, a text that may be left out, a map, and a number in a oneof. -/
def parcel : MessageDescriptor :=
  ⟨some "Parcel",
    [⟨some "code", some 1, .required, some 9, none, "", none, false, false, false⟩,
      ⟨some "note", some 2, .optional, some 9, none, "", none, false, false, false⟩,
      ⟨some "marks", some 3, .repeated, some 11, some ".Parcel.MarksEntry", "", none, false, false,
        false⟩,
      ⟨some "weight", some 4, .optional, some 5, none, "", some 0, false, false, false⟩],
    [], [], ["measure"], false⟩

def parcelScope : Scope :=
  .ofFile (Registry.empty.declareMap ".Parcel.MarksEntry" markEntry) .blank

theorem required_agrees_parcel :
    ∃ decl inner places, parcelScope.messageDecls parcel = .ok (.classDecl decl :: inner) ∧
      (∀ f ∈ parcel.fields, f.oneofIndex? ≠ none → f.label = .optional) ∧
      Places.of? decl.members = some places ∧
      (∀ names ∈ [places.incoming.keys, places.outgoing.keys, places.record.required,
          places.incoming.type.required, places.outgoing.type.required,
          places.copies.filterMap Stmt.untested?],
        names = ["code", "marks"]) ∧
      List.Forall₂ (fun f s => Stmt.Copies .constructor f.name (parcelScope.mapOf? f).isSome
        (if parcelScope.file.mayOmit f then 1 else 0) s) parcel.fields places.copies ∧
      places.incoming.Converts .incoming ["code", "marks"] [("note", false), ("weight", false)] ∧
      places.outgoing.Converts .outgoing ["code", "marks"]
        [("note", false), ("weight", false)] := by
  obtain ⟨decls, hDecls⟩ : ∃ decls, parcelScope.messageDecls parcel = .ok decls := ⟨_, rfl⟩
  have hMembers : ∀ f ∈ parcel.fields, f.oneofIndex? ≠ none → f.label = .optional := by decide
  have hRequired : parcelScope.requiredNames parcel = ["code", "marks"] := by decide
  have hOmittable : parcelScope.omittable parcel = [("note", false), ("weight", false)] := by
    decide
  obtain ⟨decl, inner, places, rfl, hPlaces, hNames, hCopies, hIn, hOut⟩ :=
    required_agrees hDecls hMembers
  rw [hRequired] at hNames
  rw [hRequired, hOmittable] at hIn hOut
  exact ⟨decl, inner, places, hDecls, hMembers, hPlaces, hNames, hCopies, hIn, hOut⟩

end Protoscribe

import Protoscribe.Proofs.Message.FromPlain
import Protoscribe.Proofs.Message.ToPlain

set_option autoImplicit false

/-! # What stands where in the class of a message

The class of a message treats each of its fields in many places: in the accessors, in the
constructor, in both conversions to and from plain objects, in the writer and in the reader. Here
these places are read off a class as it is emitted, without the plan it was made from
(`Places.of?`). What a planned class has in them is `places_members`; statements about several
places of one field start from there.
-/

namespace Protoscribe

open TypeScript Evaluation

/-! ## The places -/

/-- One of the two conversions between instances and plain objects: the type of the plain object,
the literal that holds what is always present, and the statements for everything else. -/
structure PlainPlaces where
  type : Ty
  literal : List (PropertyKey × Expr)
  assignments : List Stmt

/-- The places of a class that treat the fields of a message, each in the order it is emitted. -/
structure Places where
  /-- The type of the record that the constructor takes. -/
  record : Ty
  /-- The numbers that the runtime is told to be lists. -/
  lists : List Int
  /-- The statements with which the constructor copies a record. -/
  copies : List Stmt
  /-- The names whose missing value the constructor makes a map. -/
  fallbacks : List String
  /-- The name, the reading call and the type of each getter of a field. -/
  getters : List (String × Expr × Ty)
  /-- The name, the type and the storing call of each setter of a field. -/
  setters : List (String × Ty × Expr)
  /-- How an instance is made from a plain object. -/
  incoming : PlainPlaces
  /-- How a plain object is made from an instance. -/
  outgoing : PlainPlaces
  /-- The statements that write the fields. -/
  writes : List Stmt
  /-- The cases that read the fields. -/
  reads : List (Expr × List Stmt)

/-! ## Reading the places off a class -/

/-- The number that an expression writes in decimal. -/
def number? : Expr → Option Int
  | .number text => text.toInt?
  | _ => none

/-- The getter of a field: it gives an expression as a type. -/
def fieldGetter? : Member → Option (String × Expr × Ty)
  | .getter name [.ret (some (.cast value type))] => some (name, value, type)
  | _ => none

/-- The setter of a field: it is one call. -/
def fieldSetter? : Member → Option (String × Ty × Expr)
  | .setter name ⟨_, _, some type⟩ [.expr value] => some (name, type, value)
  | _ => none

/-- The name `f` of a statement `if (!this.f) { this.f = new Map(); }`. -/
def fallback? : Stmt → Option String
  | .branch (.unary "!" (.member .thisRef tested))
      [.expr (.binary (.member .thisRef name) "=" (.construct (.ident "Map") []))] none =>
    if tested = name then some name else none
  | _ => none

/-- The parts of a constructor: the type of the record, the lists, the copies, and the names of the
maps that are made. -/
def constructorParts? : List Param × List Stmt →
    Option (Ty × List Int × List Stmt × List String)
  | ([⟨_, _, some (.union [_, record])⟩],
      _ :: .expr (.call (.member _ "initialize") [_, _, _, _, .array lists, _]) ::
        .branch _ copies none :: rest) => do
    let lists ← lists.mapM number?
    let fallbacks ← rest.mapM fallback?
    return (record, lists, copies, fallbacks)
  | _ => none

/-- The parts of `fromObject`; its last statement returns the instance. -/
def incoming? : List Param × List Stmt → Option PlainPlaces
  | ([⟨_, _, some type⟩], .const _ none (.construct _ [.object literal _]) :: rest) =>
    some ⟨type, literal, rest.dropLast⟩
  | _ => none

/-- The parts of `toObject`; its last statement returns the plain object. -/
def outgoing? : List Param × List Stmt → Option PlainPlaces
  | ([], .const _ (some type) (.object literal _) :: rest) => some ⟨type, literal, rest.dropLast⟩
  | _ => none

/-- The statements of `serialize` between the choice of a writer and the result. -/
def writes? : List Param × List Stmt → Option (List Stmt)
  | (_, .const _ none _ :: rest) => some rest.dropLast
  | _ => none

/-- The cases in the loop of `deserialize`. -/
def reads? : List Param × List Stmt → Option (List (Expr × List Stmt))
  | (_, [_, _, .loop _ [_, .select _ cases _], _]) => some cases
  | _ => none

/-- The places of a class. -/
def Places.of? (members : List Member) : Option Places := do
  let (record, lists, copies, fallbacks) ←
    (members.findSome? constructorBody?).bind constructorParts?
  let incoming ← (method? members true "fromObject").bind incoming?
  let outgoing ← (method? members false "toObject").bind outgoing?
  let writes ← (method? members false "serialize").bind writes?
  let reads ← (method? members true "deserialize").bind reads?
  return ⟨record, lists, copies, fallbacks, members.filterMap fieldGetter?,
    members.filterMap fieldSetter?, incoming, outgoing, writes, reads⟩

/-! ## The places of a planned class -/

section Planned

variable (scope : Scope) (plan : Plan)

/-- The literal with the properties that are always present. -/
def Plan.literal (value : Property → Expr) : List (PropertyKey × Expr) :=
  (plan.properties.filter (!·.optional)).map fun p => (.name p.name, value p)

/-- What a planned class has in its places. -/
def Plan.places : Places where
  record := plan.liveRecord
  lists := Instance.listNumbers plan
  copies := plan.properties.map Instance.copy
  fallbacks := (plan.properties.filter (·.isMap)).map Property.name
  getters := plan.properties.map fun p => (p.name, Access.stored scope p, p.type)
  setters := plan.properties.map fun p => (p.name, p.type, Access.store scope plan p)
  incoming := ⟨scope.plainRecord plan, plan.literal (Plain.liveValue scope),
    Plain.optionalAssignments plan "message" Plain.isGiven (Plain.liveValue scope)⟩
  outgoing := ⟨scope.plainRecord plan, plan.literal (Plain.plainValue scope),
    Plain.optionalAssignments plan "data" Plain.isPresent (Plain.plainValue scope)⟩
  writes := plan.properties.map (Codec.writeProperty scope)
  reads := plan.properties.map (Codec.readCase scope)

/-- What is read off the accessors of a class is read off the accessors of its properties when
nothing is read off any other member. -/
theorem filterMap_members {α : Type} {read : Member → Option α} {part : Property → α}
    (hAccessors : ∀ p,
      [Access.getter scope p, Access.setter scope plan p].filterMap read = [part p])
    (hCases : ∀ index name, read (Access.caseGetter scope plan index name) = none)
    (hConstructor : ∀ params body, read (.constructor params body) = none)
    (hMethod : ∀ name isStatic isAbstract params result body,
      read (.method name isStatic isAbstract params result body) = none) :
    (plan.members scope).filterMap read = plan.properties.map part := by
  have hProperties : (Access.accessors scope plan).filterMap read = plan.properties.map part := by
    rw [Access.accessors, List.filterMap_flatMap]
    simp only [hAccessors, List.map_eq_flatMap]
  have hCaseGetters : (Access.caseGetters scope plan).filterMap read = [] := by
    rw [List.filterMap_eq_nil_iff]
    intro member hMember
    obtain ⟨index, hIndex, rfl⟩ := List.mem_mapIdx.1 hMember
    exact hCases index _
  simp only [Plan.members, List.filterMap_append, hProperties, hCaseGetters]
  simp [Instance.constructor, Plain.fromObject, Plain.toObject, Codec.serialize, Codec.overload,
    Codec.deserialize, Codec.byteMethods, hConstructor, hMethod]

theorem fieldGetters_members : (plan.members scope).filterMap fieldGetter? =
    plan.properties.map fun p => (p.name, Access.stored scope p, p.type) :=
  filterMap_members scope plan (fun _ => rfl) (fun _ _ => rfl) (fun _ _ => rfl)
    fun _ _ _ _ _ _ => rfl

theorem fieldSetters_members : (plan.members scope).filterMap fieldSetter? =
    plan.properties.map fun p => (p.name, p.type, Access.store scope plan p) :=
  filterMap_members scope plan (fun _ => rfl) (fun _ _ => rfl) (fun _ _ => rfl)
    fun _ _ _ _ _ _ => rfl

/-- A list of parts that are all read is read part by part. -/
theorem mapM_map_some {α β γ : Type} {f : β → Option γ} {part : α → β} {g : α → γ}
    (h : ∀ x, f (part x) = some (g x)) (xs : List α) :
    (xs.map part).mapM f = some (xs.map g) := by
  induction xs with
  | nil => rfl
  | cons x xs ih => simp [h, ih]

theorem constructorParts?_members :
    ((plan.members scope).findSome? constructorBody?).bind constructorParts? =
      some (plan.liveRecord, Instance.listNumbers plan, plan.properties.map Instance.copy,
        (plan.properties.filter (·.isMap)).map Property.name) := by
  -- a number is read back from the text that writes it
  have hNumber : ∀ n : Int, number? (.int n) = some n := fun n => by
    simp [number?, Expr.int]
  have hLists : ((Instance.listNumbers plan).map Expr.int).mapM number? =
      some (Instance.listNumbers plan) := by
    have h := mapM_map_some hNumber (Instance.listNumbers plan)
    rwa [List.map_id'] at h
  have hFallbacks : ((plan.properties.filter (·.isMap)).map Instance.ensureMap).mapM fallback? =
      some ((plan.properties.filter (·.isMap)).map Property.name) :=
    mapM_map_some (fun p => by
      simp [Instance.ensureMap, Stmt.guarded, Expr.not, Expr.assign, Property.onThis, fallback?]) _
  rw [constructorBody?_members]
  simp [Instance.constructor, constructorBody?, constructorParts?, Param.optionalTyped,
    Instance.setUp, Scope.runtimeCall, Expr.method, Expr.ints, Stmt.guarded, hLists, hFallbacks]

end Planned

/-- **The places of a planned class.** -/
theorem places_members (scope : Scope) (plan : Plan) :
    Places.of? (plan.members scope) = some (plan.places scope) := by
  have hIncoming : (method? (plan.members scope) true "fromObject").bind incoming? =
      some (plan.places scope).incoming := by
    rw [method?_fromObject, Plain.fromObjectBody]
    simp [incoming?, Param.typed, Stmt.constant, Plain.requiredRecord, Plan.literal, Plan.places]
  have hOutgoing : (method? (plan.members scope) false "toObject").bind outgoing? =
      some (plan.places scope).outgoing := by
    rw [method?_toObject, Plain.toObjectBody]
    simp [outgoing?, Plain.requiredRecord, Plan.literal, Plan.places]
  have hWrites : (method? (plan.members scope) false "serialize").bind writes? =
      some (plan.places scope).writes := by
    rw [method?_serialize, Codec.serializeBody]
    simp [writes?, Stmt.constant, Plan.places]
  have hReads : (method? (plan.members scope) true "deserialize").bind reads? =
      some (plan.places scope).reads := by
    rw [method?_deserialize]
    rfl
  rw [Places.of?, constructorParts?_members, hIncoming, hOutgoing, hWrites, hReads,
    fieldGetters_members, fieldSetters_members]
  rfl

end Protoscribe

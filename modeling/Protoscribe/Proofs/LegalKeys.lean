import Protoscribe.Proofs.Linking
import Protoscribe.Proofs.Message.IndexKeys

set_option autoImplicit false

/-! # Which index signatures are legal

An index signature has texts or numbers as keys, or it is no legal type. In the module of a file,
the tables of oneofs are indexed by numbers, the handlers of services by texts, and the plain
objects of maps by whatever type the keys of the map have (`mem_indexKeys_fileDecls`). Main
statement: `index_signatures_legal_iff`, with map keys of the types that may be keys, all index
signatures are legal exactly when no map has truth values as keys.

The keys of a plain object are texts, also for a map from truth values: `fromObject` compares them
with `"true"`. The type of the plain object does not follow that.
-/

namespace Protoscribe

open TypeScript Checked

/-! ## Services -/

section Services

variable (scope : Scope)

@[simp] theorem indexKeys_callType (name : String) (arguments : List Ty) :
    (scope.callType name arguments).indexKeys = arguments.flatMap Ty.indexKeys :=
  Ty.indexKeys_reference _ _

theorem indexKeys_table (plan : ServicePlan) : (Routes.table scope plan).indexKeys = [] := by
  simp [Routes.table, Routes.route, Routes.encoder, Routes.decoder, List.flatMap_map]

/-- The class of the handlers of a service is indexed by texts. -/
theorem indexKeys_handler (plan : ServicePlan) :
    (Handler.decl scope plan).indexKeys = [.named "string"] := by
  have hParams : ∀ call, (Handler.params scope call).flatMap Param.indexKeys = [] := by
    intro call
    rw [Handler.params]
    split <;> simp [Scope.requestType, Scope.responseType]
  simp [Handler.decl, Handler.method, Decl.indexKeys, ClassDecl.indexKeys,
    List.flatMap_map, indexKeys_table, hParams]

theorem indexKeys_function (settings : Settings) (call : Call) :
    (Stub.function scope settings call).params.flatMap Param.indexKeys = [] ∧
      (Stub.function scope settings call).result.indexKeys = [] ∧
      (Stub.function scope settings call).body.flatMap Stmt.indexKeys = [] := by
  have hMessage : (Stub.message scope call).indexKeys = [] := by
    simp [Stub.message, Scope.requestType]
  have hCallback : (Stub.callbackParams scope call).flatMap Param.indexKeys = [] := by
    simp [Stub.callbackParams, Stub.metadata, Stub.options, Stub.callback, Scope.responseType]
  have hPlain : (Stub.plainParams scope).flatMap Param.indexKeys = [] := by
    simp [Stub.plainParams, Stub.metadata, Stub.options]
  have hHandOn : ∀ names, (Stub.handOn call names).flatMap Stmt.indexKeys = [] := by
    intro names
    simp [Stub.handOn, Stub.forward]
  have hPromise : (Stub.promiseBody scope call).flatMap Stmt.indexKeys = [] := by
    simp [Stub.promiseBody, Stub.fillIn, Stub.forward, Stub.settle, Scope.responseType]
  rw [Stub.function]
  cases call.kind with
  | unary =>
      cases settings.givesPromises <;>
        simp [hMessage, hCallback, hPlain, hHandOn, hPromise, Scope.responseType]
  | requestStream => simp [hCallback, hHandOn, Scope.requestType]
  | responseStream => simp [hMessage, hPlain, hHandOn, Scope.responseType]
  | duplex => simp [hPlain, hHandOn, Scope.requestType, Scope.responseType]

theorem indexKeys_stub (settings : Settings) (plan : ServicePlan) :
    (Stub.decl scope settings plan).indexKeys = [] := by
  have hProperty : ∀ call, (Stub.property scope settings call).indexKeys = [] := by
    intro call
    obtain ⟨hParams, hResult, hBody⟩ := indexKeys_function scope settings call
    simp [Stub.property, hParams, hResult, hBody, Scope.requestType, Scope.responseType]
  simp [Stub.decl, Stub.base, Stub.constructor, Decl.indexKeys, ClassDecl.indexKeys,
    List.flatMap_map, hProperty]

theorem indexKeys_overloads : indexKeysIn (Overloads.all scope) = [] := by
  simp [Overloads.all, Overloads.overloads, indexKeysIn, Decl.indexKeys, CallSignature.indexKeys,
    Overloads.message, Overloads.withCallback, Overloads.withoutCallback, Overloads.metadata,
    Overloads.options, Overloads.maybeOptions, Overloads.callback, Overloads.request,
    Overloads.response]

theorem indexKeys_service {settings : Settings} {service : ServiceDescriptor} {decls : List Decl}
    (h : scope.serviceDecls settings service = .ok decls) :
    indexKeysIn decls = [.named "string"] := by
  obtain ⟨plan, -, h⟩ := bind_eq_ok.1 h
  obtain rfl := pure_eq_ok.1 h
  rw [indexKeysIn, indexKeysIn, indexKeysIn, indexKeys_handler, indexKeys_stub]
  rfl

end Services

/-- Services are indexed by texts. -/
theorem mem_indexKeys_services {scope : Scope} {settings : Settings}
    {services : List ServiceDescriptor} {decls : List Decl}
    (h : scope.allServiceDecls settings services = .ok decls) {type : Ty} :
    type ∈ indexKeysIn decls ↔ services ≠ [] ∧ type = .named "string" := by
  cases services with
  | nil =>
      obtain rfl := pure_eq_ok.1 h
      simp [indexKeysIn]
  | cons service services =>
      obtain ⟨groups, hGroups, h⟩ := bind_eq_ok.1 h
      obtain rfl := pure_eq_ok.1 h
      have hEach : ∀ s ∈ service :: services, ∀ decls, scope.serviceDecls settings s = .ok decls →
          (type ∈ indexKeysIn decls ↔ type = .named "string") := by
        intro s _ decls hDecls
        rw [indexKeys_service scope hDecls, List.mem_singleton]
      rw [indexKeysIn_append, indexKeys_overloads, List.nil_append,
        mem_indexKeys_parts hGroups hEach]
      simp

/-! ## Files -/

/-- The messages that are emitted for a file. -/
def FileDescriptor.Emits (file : FileDescriptor) (m : MessageDescriptor) : Prop :=
  ∃ top ∈ file.messages, top.Brings m

/-- A field is the key of a map that a message emitted for the scope's file holds. -/
def Scope.HasKey (scope : Scope) (key : FieldDescriptor) : Prop :=
  ∃ m, scope.file.Emits m ∧ ∃ f ∈ m.fields, ∃ entry, scope.mapOf? f = some entry ∧ entry.key = key

/-- **The index signatures of a file**: numbers where a message has oneofs, texts where there are
services, and the types of the keys of maps. -/
theorem mem_indexKeys_fileDecls {scope : Scope} {settings : Settings} {decls : List Decl}
    (h : scope.fileDecls settings = .ok decls) {type : Ty} :
    type ∈ indexKeysIn decls ↔
      (∃ m, scope.file.Emits m ∧ m.oneofs ≠ []) ∧ type = .named "number" ∨
        scope.file.services ≠ [] ∧ type = .named "string" ∨
        ∃ key, scope.HasKey key ∧ scope.valueType key = .ok type := by
  obtain ⟨messages, hMessages, h⟩ := bind_eq_ok.1 h
  obtain ⟨services, hServices, h⟩ := bind_eq_ok.1 h
  obtain rfl := pure_eq_ok.1 h
  obtain ⟨groups, hGroups, hMessages⟩ := bind_eq_ok.1 hMessages
  obtain rfl := pure_eq_ok.1 hMessages
  have hCalls : type ∈ indexKeysIn groups.flatten ↔
      ∃ m, scope.file.Emits m ∧ scope.CallsForKey m type := by
    rw [mem_indexKeys_parts hGroups fun m _ decls hDecls => mem_indexKeys_messageDecls m hDecls]
    constructor
    · rintro ⟨top, hTop, m, hBrings, hKey⟩
      exact ⟨m, ⟨top, hTop, hBrings⟩, hKey⟩
    · rintro ⟨m, ⟨top, hTop, hBrings⟩, hKey⟩
      exact ⟨top, hTop, m, hBrings, hKey⟩
  rw [indexKeysIn_append, indexKeysIn_append, indexKeysIn_enums, List.nil_append, List.mem_append,
    hCalls, mem_indexKeys_services hServices]
  constructor
  · rintro (⟨m, hEmits, ⟨hOneofs, hType⟩ | ⟨f, hf, entry, hEntry, hType⟩⟩ | hService)
    · exact .inl ⟨⟨m, hEmits, hOneofs⟩, hType⟩
    · exact .inr (.inr ⟨entry.key, ⟨m, hEmits, f, hf, entry, hEntry, rfl⟩, hType⟩)
    · exact .inr (.inl hService)
  · rintro (⟨⟨m, hEmits, hOneofs⟩, hType⟩ | hService | ⟨key, hKey, hType⟩)
    · exact .inl ⟨m, hEmits, .inl ⟨hOneofs, hType⟩⟩
    · exact .inr hService
    · obtain ⟨m, hEmits, f, hf, entry, hEntry, rfl⟩ := hKey
      exact .inl ⟨m, hEmits, .inr ⟨f, hf, entry, hEntry, hType⟩⟩

/-- In a file that is generated, the key of every map has a type. -/
theorem keyType_of_generated {scope : Scope} {settings : Settings}
    (h : Succeeds (scope.fileDecls settings)) {key : FieldDescriptor} (hKey : scope.HasKey key) :
    Succeeds (scope.valueType key) := by
  obtain ⟨m, ⟨top, hTop, hBrings⟩, f, hf, entry, hEntry, rfl⟩ := hKey
  obtain ⟨decls, h⟩ := h
  obtain ⟨messages, hMessages, -⟩ := bind_eq_ok.1 h
  obtain ⟨groups, hGroups, -⟩ := bind_eq_ok.1 hMessages
  obtain ⟨group, -, hGroup⟩ := exists_output hGroups hTop
  obtain ⟨plan, hPlan⟩ := plan_of_brings hBrings ⟨group, hGroup⟩
  rw [← plan_descriptors hPlan] at hf
  obtain ⟨p, hp, rfl⟩ := List.mem_map.1 hf
  obtain ⟨key, -, -, hType⟩ := map_of_entry hPlan hp hEntry
  exact ⟨key.type, hType⟩

theorem indexKeysIn_inPackage (file : FileDescriptor) (decls : List Decl) :
    indexKeysIn (inPackage file.package decls) = indexKeysIn decls := by
  obtain ⟨-, h⟩ | ⟨outer, inner, -, h⟩ := inPackage_cases file decls
  · rw [h]
  · rw [h, indexKeysIn, indexKeysIn, List.append_nil, indexKeys_nest]

/-! ## Legal keys -/

/-- Whether values of the type may be the keys of a map: integers, truth values and texts. -/
def FieldType.mayKey : FieldType → Bool
  | .double | .float | .group | .message | .bytes | .enum => false
  | _ => true

/-- A key of a map is a legal key of an index signature exactly when it is no map and, unless it is
asked for as a text, no truth value. -/
theorem isKey_iff {scope : Scope} {f : FieldDescriptor} {type : Ty} (may : f.type.mayKey)
    (h : scope.valueType f = .ok type) :
    type.IsKey ↔ scope.mapOf? f = none ∧ (f.type = .bool → f.jsString) := by
  rw [Scope.valueType, Scope.mapSteps, Scope.valueTypeWithin] at h
  cases hMap : scope.mapOf? f with
  | some entry =>
      rw [hMap] at h
      obtain ⟨key, -, h⟩ := bind_eq_ok.1 h
      obtain ⟨value, -, h⟩ := bind_eq_ok.1 h
      obtain rfl := pure_eq_ok.1 h
      simp [Ty.IsKey, Ty.named]
  | none =>
      rw [hMap] at h
      change scope.plainType f = .ok type at h
      rw [Scope.plainType] at h
      cases hString : f.jsString with
      | true =>
          rw [if_pos hString] at h
          obtain rfl := Except.ok.inj h
          simp [Ty.IsKey]
      | false =>
          rw [if_neg (by simp [hString])] at h
          -- of the types that may be keys only the truth values give another type
          cases hType : f.type <;> rw [hType] at h may <;> cases may <;> cases h <;>
            simp [Ty.IsKey, Ty.named]

/-- **Which index signatures are legal.** In a file whose map keys have types that may be keys,
every index signature of the module has texts or numbers as keys exactly when no map has truth
values as keys that are not asked for as texts, and no key is typed by a map entry itself. -/
theorem index_signatures_legal_iff {file : FileDescriptor} {registry : Registry}
    {settings : Settings} {version : Option Version} {source : SourceFile}
    (hSource : file.sourceFile registry settings version = .ok source)
    (keys : ∀ key, (file.scope registry).HasKey key → key.type.mayKey) :
    (∀ type ∈ indexKeysIn source.body, type.IsKey) ↔
      ∀ key, (file.scope registry).HasKey key →
        (file.scope registry).mapOf? key = none ∧ (key.type = .bool → key.jsString) := by
  obtain ⟨decls, hDecls, hSource⟩ := bind_eq_ok.1 hSource
  obtain rfl := pure_eq_ok.1 hSource
  rw [indexKeysIn_inPackage]
  constructor
  · intro hLegal key hKey
    -- the key has a type, as the file was generated, and this type is the key of a signature
    obtain ⟨type, hValue⟩ := keyType_of_generated ⟨decls, hDecls⟩ hKey
    have hType := (mem_indexKeys_fileDecls hDecls).2 (.inr (.inr ⟨key, hKey, hValue⟩))
    exact (isKey_iff (keys key hKey) hValue).1 (hLegal type hType)
  · intro hGood type hType
    rcases (mem_indexKeys_fileDecls hDecls).1 hType with
      ⟨-, rfl⟩ | ⟨-, rfl⟩ | ⟨key, hKey, hValue⟩
    · exact .inr rfl
    · exact .inl rfl
    · exact (isKey_iff (keys key hKey) hValue).2 (hGood key hKey)

/-- A map from keys of the type with the given code to texts. -/
def pagesEntry (code : Int) : MapEntry :=
  ⟨⟨some "key", some 1, .optional, some code, none, "", none, false, false, false⟩,
    ⟨some "value", some 2, .optional, some 9, none, "", none, false, false, false⟩⟩

/-- A message with such a map and a oneof. -/
def atlasMessage (code : Int) : MessageDescriptor :=
  ⟨some "Atlas",
    [⟨some "pages", some 1, .repeated, some 11, some ".p.Atlas.PagesEntry", "", none, false, false,
        false⟩,
      ⟨some "title", some 2, .optional, some 9, none, "", some 0, false, false, false⟩],
    [⟨some "PagesEntry", [(pagesEntry code).key, (pagesEntry code).value], [], [], [], true⟩],
    [], ["kind"], false⟩

/-- A file with this message and a service. -/
def atlas (code : Int) : FileDescriptor :=
  { FileDescriptor.blank with
    name := "atlas.proto", package := "p", syntaxName := "proto3"
    messages := [atlasMessage code], services := [⟨some "Desk", []⟩] }

def atlasRegistry (code : Int) : Registry :=
  (Registry.empty.declare "atlas.proto" ".p.Atlas").declareMap ".p.Atlas.PagesEntry"
    (pagesEntry code)

theorem hasKey_atlas {code : Int} {key : FieldDescriptor} :
    ((atlas code).scope (atlasRegistry code)).HasKey key ↔ key = (pagesEntry code).key := by
  have hMap : ∀ f : FieldDescriptor, ((atlas code).scope (atlasRegistry code)).mapOf? f =
      f.typeName?.bind fun typeName =>
        if ".p.Atlas.PagesEntry" = typeName then some (pagesEntry code) else none := by
    intro f
    have hRegistry : ∀ typeName, (atlasRegistry code).mapOf? typeName =
        if ".p.Atlas.PagesEntry" = typeName then some (pagesEntry code) else none := by
      intro typeName
      rw [atlasRegistry, Registry.mapOf?_declareMap, Registry.mapOf?_declare,
        Registry.mapOf?_empty]
    exact congrArg f.typeName?.bind (funext hRegistry)
  constructor
  · rintro ⟨m, ⟨top, hTop, hBrings⟩, f, hf, entry, hEntry, rfl⟩
    obtain rfl : top = atlasMessage code := List.mem_singleton.1 hTop
    cases hBrings with
    | nested hm => cases hm
    | self =>
      obtain ⟨typeName, -, hEntry⟩ := Option.bind_eq_some_iff.1 ((hMap f).symm.trans hEntry)
      split at hEntry
      · exact congrArg MapEntry.key (Option.some.inj hEntry).symm
      · cases hEntry
  · rintro rfl
    exact ⟨atlasMessage code, ⟨_, List.mem_singleton_self _, .self⟩, _, List.mem_cons_self,
      pagesEntry code, hMap _, rfl⟩

theorem mayKey_atlas {code : Int} (may : (FieldType.ofCode code).mayKey) :
    ∀ key, ((atlas code).scope (atlasRegistry code)).HasKey key → key.type.mayKey := by
  intro key hKey
  obtain rfl := hasKey_atlas.1 hKey
  exact may

theorem index_signatures_legal_iff_atlas :
    ∃ source, Registry.ofFiles [atlas 5] = .ok (atlasRegistry 5) ∧
      (atlas 5).sourceFile (atlasRegistry 5) .standard none = .ok source ∧
      (∀ key, ((atlas 5).scope (atlasRegistry 5)).HasKey key → key.type.mayKey) ∧
      indexKeysIn source.body =
        [.named "number", .named "number", .named "number", .named "string"] ∧
      ((∀ type ∈ indexKeysIn source.body, type.IsKey) ↔
        ∀ key, ((atlas 5).scope (atlasRegistry 5)).HasKey key →
          ((atlas 5).scope (atlasRegistry 5)).mapOf? key = none ∧
            (key.type = .bool → key.jsString)) := by
  obtain ⟨source, hSource, hList⟩ : ∃ source,
      (atlas 5).sourceFile (atlasRegistry 5) .standard none = .ok source ∧
        indexKeysIn source.body =
          [.named "number", .named "number", .named "number", .named "string"] := ⟨_, rfl, rfl⟩
  have hKeys := mayKey_atlas (show (FieldType.ofCode 5).mayKey from rfl)
  exact ⟨source, rfl, hSource, hKeys, hList, index_signatures_legal_iff hSource hKeys⟩

/-- The same file with truth values as keys: the plain object has an index signature with truth
values as keys, in `fromObject` and in `toObject`. -/
theorem boolean_index_signature :
    ∃ source, Registry.ofFiles [atlas 8] = .ok (atlasRegistry 8) ∧
      (atlas 8).sourceFile (atlasRegistry 8) .standard none = .ok source ∧
      (∀ key, ((atlas 8).scope (atlasRegistry 8)).HasKey key → key.type.mayKey) ∧
      .named "boolean" ∈ indexKeysIn source.body ∧ ¬ (Ty.named "boolean").IsKey := by
  obtain ⟨source, hSource, hList⟩ : ∃ source,
      (atlas 8).sourceFile (atlasRegistry 8) .standard none = .ok source ∧
        indexKeysIn source.body =
          [.named "number", .named "boolean", .named "boolean", .named "string"] := ⟨_, rfl, rfl⟩
  have hKeys := mayKey_atlas (show (FieldType.ofCode 8).mayKey from rfl)
  exact ⟨source, rfl, hSource, hKeys, by simp [hList], by simp [Ty.IsKey, Ty.named]⟩

end Protoscribe

import Protoscribe.Proofs.Linking
import Protoscribe.Proofs.Message.MemberNames
import Protoscribe.Proofs.Service.Agreement

set_option autoImplicit false

/-! # Every method has a path of its own

The call runtime finds a method by its path alone, whatever module the route stands in. Main
statement: `routed_apart`, two methods have the same path only if they have the same name in the
same service of the same package, so the routes in the modules of several files have different paths
exactly when no method of these files is described twice.

A path is read back into the names it was made of (`ofPath?_path`): the service and its package end
at the second slash, and the package ends at the last dot before it. The paths in a module are read
off its classes (`SourceFile.routedPaths`), and they are those of the methods of the file in their
order (`routedPaths_sourceFile`).
-/

namespace Protoscribe

open TypeScript Checked

/-! ## Names and paths -/

/-- The names that say which method is meant. -/
structure MethodName where
  package : String
  service : String
  method : String
  deriving DecidableEq

namespace MethodName

/-- The path of the method. -/
def path (name : MethodName) : String := Routes.path name.package name.service name.method

/-- The name of the service with its package. -/
def owner (name : MethodName) : String :=
  if name.package = "" then name.service else name.package ++ "." ++ name.service

/-- Names that do not hold what is put between them: no slash in front of the method, and no dot in
the service. The package may have any number of parts. -/
structure Separable (name : MethodName) : Prop where
  package : '/' ∉ name.package.toList
  service : '/' ∉ name.service.toList
  simple : '.' ∉ name.service.toList

/-- The names that a path is made of. -/
def ofPath? (path : String) : Option MethodName := do
  let rest ← Text.afterStart? "/" path
  let (owner, method?) := Text.cutFirst '/' rest
  let method ← method?
  let parts := Text.segments '.' owner
  return ⟨String.intercalate "." parts.dropLast, parts.getLastD "", method⟩

instance (name : MethodName) : Decidable name.Separable :=
  decidable_of_iff
    ('/' ∉ name.package.toList ∧ '/' ∉ name.service.toList ∧ '.' ∉ name.service.toList)
    ⟨fun ⟨package, service, simple⟩ => ⟨package, service, simple⟩,
      fun h => ⟨h.package, h.service, h.simple⟩⟩

variable {name : MethodName}

theorem path_eq (name : MethodName) : name.path = "/" ++ (name.owner ++ ("/" ++ name.method)) := by
  rw [path, Routes.path, ← owner, String.append_assoc, String.append_assoc]

theorem Separable.owner (h : name.Separable) : '/' ∉ name.owner.toList := by
  rw [MethodName.owner]
  split
  · exact h.service
  · simp [h.package, h.service]

/-- The last segment of the owner is the service, and the segments before it are the package. -/
theorem Separable.segments_owner (h : name.Separable) :
    ∃ parts, Text.segments '.' name.owner = parts ++ [name.service] ∧
      String.intercalate "." parts = name.package := by
  rw [MethodName.owner]
  split
  · rename_i hPackage
    exact ⟨[], Text.segments_eq_singleton h.simple, hPackage.symm⟩
  · refine ⟨Text.segments '.' name.package, ?_, Text.join_segments '.' name.package⟩
    rw [String.append_assoc, show "." = String.singleton '.' from rfl, Text.segments_append,
      Text.segments_eq_singleton h.simple]

/-- **A path is read back.** -/
theorem Separable.ofPath?_path (h : name.Separable) : ofPath? name.path = some name := by
  obtain ⟨parts, hParts, hPackage⟩ := h.segments_owner
  have hStart : Text.afterStart? "/" name.path = some (name.owner ++ ("/" ++ name.method)) :=
    Text.afterStart?_eq_some.2 name.path_eq
  have hCut : Text.cutFirst '/' (name.owner ++ ("/" ++ name.method)) =
      (name.owner, some name.method) := Text.cutFirst_some h.owner name.method
  simp only [ofPath?, hStart, hCut, hParts, Option.bind_eq_bind, Option.bind_some,
    List.dropLast_concat, List.getLastD_concat, hPackage, Option.pure_def]

/-- **The path says which method is meant.** -/
theorem Separable.eq_of_path_eq {other : MethodName} (h : name.Separable) (hOther : other.Separable)
    (hPath : name.path = other.path) : name = other := by
  have hRead : some name = some other := by
    rw [← h.ofPath?_path, hPath, hOther.ofPath?_path]
  exact Option.some.inj hRead

end MethodName

/-- The names of the methods of a file. -/
def FileDescriptor.methodNames (file : FileDescriptor) : List MethodName :=
  file.services.flatMap fun service =>
    service.methods.map fun method => ⟨file.package, service.name, method.name⟩

/-! ## The paths in a module -/

namespace TypeScript

/-- The path that a route gives. -/
def routePath? (route : PropertyKey × Expr) : Option String :=
  match Expr.entry? "path" route.2 with
  | some (.string path) => some path
  | _ => none

/-- The paths in the routes that a class holds. -/
def ClassDecl.routedPaths (decl : ClassDecl) : List String :=
  (decl.members.filterMap routes?).flatten.filterMap routePath?

mutual

/-- The paths in the routes of the classes in a declaration. -/
def Decl.routedPaths : Decl → List String
  | .enumeration _ => []
  | .classDecl decl => decl.routedPaths
  | .callable _ => []
  | .nspace _ body => routedPathsIn body

/-- The paths in the routes of the classes in a list of declarations. -/
def routedPathsIn : List Decl → List String
  | [] => []
  | decl :: rest => decl.routedPaths ++ routedPathsIn rest

end

/-- The paths under which a module answers calls. -/
def SourceFile.routedPaths (source : SourceFile) : List String := routedPathsIn source.body

theorem routedPathsIn_eq (decls : List Decl) :
    routedPathsIn decls = decls.flatMap Decl.routedPaths := by
  induction decls with
  | nil => rfl
  | cons decl decls ih => rw [routedPathsIn, ih, List.flatMap_cons]

theorem routedPathsIn_append (a b : List Decl) :
    routedPathsIn (a ++ b) = routedPathsIn a ++ routedPathsIn b := by
  rw [routedPathsIn_eq, routedPathsIn_eq, routedPathsIn_eq, List.flatMap_append]

theorem routedPathsIn_flatten (groups : List (List Decl)) :
    routedPathsIn groups.flatten = groups.flatMap routedPathsIn := by
  induction groups with
  | nil => rfl
  | cons group groups ih => rw [List.flatten_cons, routedPathsIn_append, ih, List.flatMap_cons]

/-- Namespaces add nothing to what stands in them. -/
theorem routedPaths_nest (body : List Decl) : ∀ (outer : String) (inner : List String),
    (Decl.nest outer inner body).routedPaths = routedPathsIn body
  | _, [] => by rw [Decl.nest, Decl.routedPaths]
  | _, next :: inner => by
      rw [Decl.nest, Decl.routedPaths, routedPathsIn, routedPathsIn, List.append_nil]
      exact routedPaths_nest body next inner

end TypeScript

theorem routedPathsIn_inPackage (file : FileDescriptor) (decls : List Decl) :
    routedPathsIn (inPackage file.package decls) = routedPathsIn decls := by
  obtain ⟨-, h⟩ | ⟨outer, inner, -, h⟩ := inPackage_cases file decls
  · rw [h]
  · rw [h, routedPathsIn, routedPathsIn, List.append_nil, routedPaths_nest]

variable {scope : Scope} {settings : Settings}

/-! ## Messages have no routes -/

/-- The routes stand in a static member. -/
theorem no_routes {members : List Member} (h : ∀ member ∈ members, member.isStatic = false) :
    members.filterMap routes? = [] := by
  refine List.filterMap_eq_nil_iff.2 fun member hMember => ?_
  have hStatic := h member hMember
  unfold routes?
  split
  · cases hStatic
  · rfl

theorem routedPaths_message (plan : Plan) : (plan.decl scope).routedPaths = [] := by
  have hNamed : (plan.named scope).filterMap routes? = [] := no_routes fun _ h => isStatic_named h
  -- the static members of a message are among its methods, and those are the same in every class
  have hMethods : (plan.methods scope).filterMap routes? = [] := rfl
  have hConstructor : routes? (Instance.constructor scope plan) = none := rfl
  rw [Plan.decl, Decl.routedPaths, ClassDecl.routedPaths, members_eq,
    List.filterMap_cons_none hConstructor, List.filterMap_append, hNamed, hMethods]
  rfl

theorem routedPathsIn_enums (enums : List EnumDescriptor) :
    routedPathsIn (enums.map EnumDescriptor.decl) = [] := by
  rw [routedPathsIn_eq, List.flatMap_map, List.flatMap_eq_nil_iff]
  exact fun e _ => rfl

theorem routedPathsIn_innerDecls (name : String) (body : List Decl) :
    routedPathsIn (innerDecls name body) = routedPathsIn body := by
  cases body with
  | nil => rfl
  | cons first others =>
      rw [innerDecls, routedPathsIn, routedPathsIn, List.append_nil, Decl.routedPaths]

mutual

theorem routedPathsIn_messageDecls : ∀ {m : MessageDescriptor} {decls : List Decl},
    scope.messageDecls m = .ok decls → routedPathsIn decls = []
  | ⟨name?, fields, nested, enums, oneofs, isMapEntry⟩, decls, h => by
      obtain ⟨plan, inner, -, hInner, rfl⟩ := Scope.messageDecls_eq_ok.1 h
      rw [routedPathsIn, routedPaths_message, List.nil_append, routedPathsIn_innerDecls,
        routedPathsIn_append, routedPathsIn_enums, routedPathsIn_nestedDecls hInner]
      rfl

theorem routedPathsIn_nestedDecls : ∀ {ms : List MessageDescriptor} {decls : List Decl},
    scope.nestedDecls ms = .ok decls → routedPathsIn decls = []
  | [], decls, h => by
      obtain rfl := pure_eq_ok.1 h
      rfl
  | m :: rest, decls, h => by
      rw [Scope.nestedDecls] at h
      split at h
      · exact routedPathsIn_nestedDecls h
      · obtain ⟨first, hFirst, h⟩ := bind_eq_ok.1 h
        obtain ⟨others, hOthers, h⟩ := bind_eq_ok.1 h
        obtain rfl := pure_eq_ok.1 h
        rw [routedPathsIn_append, routedPathsIn_messageDecls hFirst,
          routedPathsIn_nestedDecls hOthers]
        rfl

end

/-! ## The routes of services -/

theorem routedPaths_stub (plan : ServicePlan) :
    (Stub.decl scope settings plan).routedPaths = [] := by
  have hConstructor : routes? (Stub.constructor scope) = none := rfl
  have hCalls : (plan.calls.map (Stub.property scope settings)).filterMap routes? = [] :=
    no_routes (List.forall_mem_map.2 fun call _ => rfl)
  rw [Stub.decl, Decl.routedPaths, ClassDecl.routedPaths, List.filterMap_cons_none hConstructor,
    hCalls]
  rfl

theorem routedPaths_handler (plan : ServicePlan) :
    (Handler.decl scope plan).routedPaths =
      plan.calls.map fun call => Routes.path scope.file.package plan.name call.name := by
  have hTable : routes? (.property "definition" true none (some (Routes.table scope plan))) =
      some (plan.calls.map fun call => (.name call.name, Routes.route scope plan.name call)) := rfl
  have hIndex (signature : IndexType Ty) : routes? (.index signature) = none := rfl
  have hMethods : (plan.calls.map (Handler.method scope)).filterMap routes? = [] :=
    no_routes (List.forall_mem_map.2 fun call _ => rfl)
  rw [Handler.decl, Decl.routedPaths, ClassDecl.routedPaths, List.filterMap_append, hMethods,
    List.append_nil, List.filterMap_cons_some hTable, List.filterMap_cons_none (hIndex _),
    List.filterMap_nil, List.flatten_singleton, List.filterMap_map, ← List.filterMap_eq_map]
  rfl

/-- The handler of a service has a path for each method, and the stub has none. -/
theorem routedPathsIn_service {service : ServiceDescriptor} {decls : List Decl}
    (h : scope.serviceDecls settings service = .ok decls) :
    routedPathsIn decls = service.methods.map fun method =>
      Routes.path scope.file.package service.name method.name := by
  obtain ⟨plan, hPlan, h⟩ := bind_eq_ok.1 h
  obtain rfl := pure_eq_ok.1 h
  have hPaths : plan.calls.map (fun call => Routes.path scope.file.package plan.name call.name) =
      (plan.calls.map Call.name).map (Routes.path scope.file.package plan.name) :=
    List.map_map.symm
  rw [routedPathsIn, routedPathsIn, routedPathsIn, routedPaths_stub, routedPaths_handler,
    List.append_nil, List.append_nil, hPaths, service.name_of_plan hPlan,
    service.callNames_of_plan hPlan, List.map_map]
  rfl

/-- The paths of the services of a file, in their order. -/
theorem routedPathsIn_services {services : List ServiceDescriptor} {decls : List Decl}
    (h : scope.allServiceDecls settings services = .ok decls) :
    routedPathsIn decls = services.flatMap fun service => service.methods.map fun method =>
      Routes.path scope.file.package service.name method.name := by
  cases services with
  | nil =>
      obtain rfl := pure_eq_ok.1 h
      rfl
  | cons service services =>
      obtain ⟨groups, hGroups, h⟩ := bind_eq_ok.1 h
      obtain rfl := pure_eq_ok.1 h
      have hOverloads : routedPathsIn (Overloads.all scope) = [] := rfl
      rw [routedPathsIn_append, hOverloads, List.nil_append, routedPathsIn_flatten]
      exact flatMap_of_mapM hGroups fun service _ decls hDecls => routedPathsIn_service hDecls

/-- **The paths in the module of a file** are those of the methods of the file, in their order. -/
theorem routedPaths_sourceFile {file : FileDescriptor} {registry : Registry}
    {version : Option Version} {source : SourceFile}
    (h : file.sourceFile registry settings version = .ok source) :
    source.routedPaths = file.methodNames.map MethodName.path := by
  obtain ⟨decls, hDecls, h⟩ := bind_eq_ok.1 h
  obtain rfl := pure_eq_ok.1 h
  obtain ⟨messages, hMessages, hDecls⟩ := bind_eq_ok.1 hDecls
  obtain ⟨services, hServices, hDecls⟩ := bind_eq_ok.1 hDecls
  obtain rfl := pure_eq_ok.1 hDecls
  obtain ⟨groups, hGroups, hMessages⟩ := bind_eq_ok.1 hMessages
  obtain rfl := pure_eq_ok.1 hMessages
  have hNone : routedPathsIn groups.flatten = [] := by
    rw [routedPathsIn_flatten,
      flatMap_of_mapM hGroups fun m _ decls hDecls => routedPathsIn_messageDecls hDecls]
    exact List.flatMap_eq_nil_iff.2 fun m _ => rfl
  rw [SourceFile.routedPaths, routedPathsIn_inPackage, routedPathsIn_append, routedPathsIn_append,
    routedPathsIn_enums, hNone, routedPathsIn_services hServices, FileDescriptor.scope_file,
    FileDescriptor.methodNames, List.map_flatMap]
  simp only [List.nil_append, List.map_map]
  rfl

/-! ## Methods of several files -/

/-- **No two methods are routed to the same path.** Two methods whose packages and services hold no
slash, and whose services hold no dot, have the same path only if all their names are the same. So
the routes in the modules of several files have different paths exactly when no two methods of these
files have the same names. -/
theorem routed_apart :
    (∀ a b : MethodName, a.Separable → b.Separable → a.path = b.path → a = b) ∧
      ∀ (files : List FileDescriptor) (registry : Registry) (settings : Settings)
        (version : Option Version) (sources : List SourceFile),
        files.mapM (fun file => file.sourceFile registry settings version) = .ok sources →
        (∀ file ∈ files, ∀ name ∈ file.methodNames, name.Separable) →
        ((sources.flatMap SourceFile.routedPaths).Nodup ↔
          (files.flatMap FileDescriptor.methodNames).Nodup) := by
  refine ⟨fun a b ha hb => ha.eq_of_path_eq hb, ?_⟩
  intro files registry settings version sources hSources hSeparable
  have hPaths : sources.flatMap SourceFile.routedPaths =
      (files.flatMap FileDescriptor.methodNames).map MethodName.path := by
    rw [List.map_flatMap]
    exact flatMap_of_mapM hSources fun file _ source hSource => routedPaths_sourceFile hSource
  have hNames : ∀ name ∈ files.flatMap FileDescriptor.methodNames, name.Separable := by
    intro name hName
    obtain ⟨file, hFile, hName⟩ := List.mem_flatMap.1 hName
    exact hSeparable file hFile name hName
  rw [hPaths]
  constructor
  · exact List.Nodup.of_map _
  · exact List.Nodup.map_on fun a ha b hb => (hNames a ha).eq_of_path_eq (hNames b hb)

/-- A file without a package and a file whose package is named like the service of both. -/
def hall : FileDescriptor :=
  { FileDescriptor.blank with
    name := "hall.proto"
    services := [⟨some "Desk",
      [⟨"Send", some ".Note", some ".Ack", false, false⟩,
        ⟨"Take", some ".Ack", some ".Note", false, true⟩]⟩] }

def annex : FileDescriptor :=
  { FileDescriptor.blank with
    name := "annex.proto", package := "Desk"
    services := [⟨some "Desk", [⟨"Send", some ".Note", some ".Ack", true, false⟩]⟩] }

theorem routed_apart_hall_annex :
    ∃ sources, [hall, annex].mapM (fun file => file.sourceFile .empty .standard none) =
        .ok sources ∧
      (∀ file ∈ [hall, annex], ∀ name ∈ file.methodNames, name.Separable) ∧
      sources.flatMap SourceFile.routedPaths = ["/Desk/Send", "/Desk/Take", "/Desk.Desk/Send"] ∧
      (sources.flatMap SourceFile.routedPaths).Nodup ∧
      (MethodName.mk "" "Desk" "Send").path ≠ (MethodName.mk "Desk" "Desk" "Send").path := by
  obtain ⟨sources, hSources, hPaths⟩ : ∃ sources,
      [hall, annex].mapM (fun file => file.sourceFile .empty .standard none) = .ok sources ∧
        sources.flatMap SourceFile.routedPaths =
          ["/Desk/Send", "/Desk/Take", "/Desk.Desk/Send"] := ⟨_, rfl, by decide +kernel⟩
  have hSeparable : ∀ file ∈ [hall, annex], ∀ name ∈ file.methodNames, name.Separable := by
    decide +kernel
  have hNames : ([hall, annex].flatMap FileDescriptor.methodNames).Nodup := by decide +kernel
  refine ⟨sources, hSources, hSeparable, hPaths, ?_, fun hSame => ?_⟩
  · exact (routed_apart.2 _ _ _ _ _ hSources hSeparable).2 hNames
  · exact absurd (routed_apart.1 _ _ (by decide) (by decide) hSame) (by decide)

/-- A dot in the name of a service cannot be told from the one in front of it. -/
example : (MethodName.mk "" "p.Desk" "Send").path = (MethodName.mk "p" "Desk" "Send").path := by
  decide

end Protoscribe

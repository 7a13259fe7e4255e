import Mathlib.Data.Finset.Card
import Mathlib.Data.List.Induction
import Mathlib.Data.List.TakeWhile
import Protoscribe.Proofs.Registry.Declarations

set_option autoImplicit false

/-! # What the registry knows after any sequence of files

Files are registered one after the other. A file may fail, which leaves what it has registered so
far, and the next one goes on from there. Main statement: `registerEach_eq_visits`, the registry
after such a sequence is what a list says, the list of all declarations that the files got to
(`visits`): a name belongs to the last type, and to the last map entry, visited under it.

Registering a file visits its declarations up to the first map entry that lacks a side
(`visitAll_eq`), so the registry is a fold over the visits (`registerEach_eq_foldl`). Each table is
then compared with the list by adding one visit at its end.
-/

namespace Protoscribe

/-! ## Visits -/

namespace Declaration

instance : DecidablePred LacksSide
  | ⟨_, .enum _⟩ => isFalse (by simp [LacksSide])
  | ⟨_, .message _⟩ => isFalse (by simp [LacksSide])
  | ⟨_, .mapEntry m⟩ =>
    decidable_of_iff m.keyValue?.isNone (by
      simp [LacksSide, ← MessageDescriptor.keyValue?_eq_none])

end Declaration

namespace FileDescriptor

/-- The qualified name of a declaration: a dot and the package, if the file has one, and then a dot
and a name for each message around the declaration and for the declaration itself. -/
def qualifiedName (file : FileDescriptor) (d : Declaration) : String :=
  String.join (((if file.package = "" then [] else [file.package]) ++ d.path).map ("." ++ ·))

/-- The declarations that the registration of a file gets to: all in front of the first map entry
that lacks its key or its value. -/
def visited (file : FileDescriptor) : List Declaration :=
  file.declarations.takeWhile fun d => ¬ d.LacksSide

end FileDescriptor

/-- A declaration visited in a file. -/
structure Visit where
  file : FileDescriptor
  declaration : Declaration

namespace Visit

def name (v : Visit) : String := v.file.qualifiedName v.declaration

def isType (v : Visit) : Bool := v.declaration.isType

def isMapEntry (v : Visit) : Bool := !v.isType

end Visit

/-- What is visited when files are registered one after the other, in order. -/
def visits (files : List FileDescriptor) : List Visit :=
  files.flatMap fun file => file.visited.map (Visit.mk file)

/-- The last type visited under a name. -/
def lastType? (vs : List Visit) (typeName : String) : Option Visit :=
  vs.reverse.find? fun v => v.isType && v.name = typeName

/-- The last map entry visited under a name. -/
def lastKeyValue? (vs : List Visit) (typeName : String) : Option Visit :=
  vs.reverse.find? fun v => v.isMapEntry && v.name = typeName

/-- The name that registration builds up message by message is the qualified name. -/
theorem typeName_eq_qualifiedName (file : FileDescriptor) (d : Declaration) :
    d.typeName (Registry.fileScope file) = file.qualifiedName d := by
  have hPath : ∀ (path : List String) (scope : String),
      path.foldl qualified scope = scope ++ String.join (path.map ("." ++ ·)) := by
    intro path
    induction path with
    | nil => simp
    | cons name path ih =>
        intro scope
        rw [List.foldl_cons, ih, qualified, List.map_cons, String.join_cons]
        simp only [String.append_assoc]
  rw [Declaration.typeName, hPath, Registry.fileScope, FileDescriptor.qualifiedName,
    List.map_append]
  split <;> simp [String.join_cons]

/-! ## Registration as a fold over the visits -/

namespace Registry

/-- The registry after a visit. -/
def note (registry : Registry) (v : Visit) : Registry :=
  (registry.visit v.file.name (fileScope v.file) v.declaration).1

/-- The registry after files are registered one after the other, whether or not they fail. -/
def registerEach (files : List FileDescriptor) : Registry :=
  files.foldl (fun registry file => (registry.register file).1) empty

theorem visit_lacking {file scope : String} {registry : Registry} {d : Declaration}
    (h : d.LacksSide) :
    registry.visit file scope d = (registry, some (.incompleteMapEntry (d.typeName scope))) := by
  obtain ⟨m, hItem, hLacks⟩ := h
  rw [visit, hItem]
  simp only [MessageDescriptor.keyValue?_eq_none.2 hLacks]

theorem visit_complete {file scope : String} {registry : Registry} {d : Declaration}
    (h : ¬ d.LacksSide) : (registry.visit file scope d).2 = none :=
  not_not.1 fun hFails => h ((visit_fails_iff file scope registry d).1 hFails)

/-- **Visiting goes on up to the first map entry that lacks a side**, and fails there. -/
theorem visitAll_eq (file scope : String) (registry : Registry) (ds : List Declaration) :
    registry.visitAll file scope ds =
      ((ds.takeWhile fun d => ¬ d.LacksSide).foldl
          (fun registry d => (registry.visit file scope d).1) registry,
        (ds.find? fun d => d.LacksSide).map fun d => .incompleteMapEntry (d.typeName scope)) := by
  induction ds generalizing registry with
  | nil => rfl
  | cons d ds ih =>
      rw [visitAll]
      by_cases h : d.LacksSide
      · rw [visit_lacking h]
        simp [h]
      · have hVisit : (registry.visit file scope d).2 = none := visit_complete h
        rcases hNext : registry.visit file scope d with ⟨next, failure⟩
        obtain rfl : failure = none := by rw [← hVisit, hNext]
        simp [ih, h, hNext]

theorem register_failure (registry : Registry) (file : FileDescriptor) :
    (registry.register file).2 = (file.declarations.find? fun d => d.LacksSide).map
      fun d => .incompleteMapEntry (file.qualifiedName d) := by
  rw [register_eq_visitAll, visitAll_eq]
  simp only [typeName_eq_qualifiedName]

theorem register_eq_foldl (registry : Registry) (file : FileDescriptor) :
    (registry.register file).1 = (file.visited.map (Visit.mk file)).foldl note registry := by
  rw [register_eq_visitAll, visitAll_eq, List.foldl_map]
  rfl

theorem registerEach_eq_foldl (files : List FileDescriptor) :
    registerEach files = (visits files).foldl note empty := by
  rw [registerEach, visits, List.foldl_flatMap]
  simp only [register_eq_foldl]

end Registry

/-! ## The tables after some visits -/

theorem MessageDescriptor.keyValue?_eq_some {m : MessageDescriptor} {key value : FieldDescriptor} :
    m.keyValue? = some ⟨key, value⟩ ↔
      m.fields.find? (·.number = 1) = some key ∧ m.fields.find? (·.number = 2) = some value := by
  rw [keyValue?]
  cases m.fields.find? (·.number = 1) <;> cases m.fields.find? (·.number = 2) <;> simp

namespace Registry

/-- A visit to a type declares it. A visit to a map entry with both sides keeps its key and its
value. -/
theorem note_cases (registry : Registry) {v : Visit} (complete : ¬ v.declaration.LacksSide) :
    (v.isType = true ∧ registry.note v = registry.declare v.file.name v.name) ∨
      (v.isType = false ∧ ∃ m entry, v.declaration.item = .mapEntry m ∧
        m.keyValue? = some entry ∧ registry.note v = registry.declareMap v.name entry) := by
  have hName : v.name = v.declaration.typeName (fileScope v.file) :=
    (typeName_eq_qualifiedName v.file v.declaration).symm
  rw [hName, note, visit]
  obtain ⟨file, path, item⟩ := v
  cases item with
  | enum e => exact Or.inl ⟨rfl, rfl⟩
  | message m => exact Or.inl ⟨rfl, rfl⟩
  | mapEntry m =>
      cases hEntry : m.keyValue? with
      | none => exact absurd ⟨m, rfl, MessageDescriptor.keyValue?_eq_none.1 hEntry⟩ complete
      | some entry => exact Or.inr ⟨rfl, m, entry, rfl, hEntry, by simp only [hEntry]⟩

theorem owner?_foldl_note {vs : List Visit} (complete : ∀ v ∈ vs, ¬ v.declaration.LacksSide)
    (typeName : String) :
    (vs.foldl note empty).owner? typeName = (lastType? vs typeName).map (·.file.name) := by
  induction vs using List.reverseRecOn with
  | nil => simp [lastType?]
  | append_singleton vs v ih =>
      have hBefore := ih fun w hw => complete w (List.mem_append_left _ hw)
      rw [List.foldl_append, List.foldl_cons, List.foldl_nil, lastType?, List.reverse_append,
        List.reverse_singleton, List.singleton_append, List.find?_cons]
      obtain ⟨hType, hNote⟩ | ⟨hType, m, entry, -, -, hNote⟩ :=
        note_cases (vs.foldl note empty) (complete v (by simp))
      · rw [hNote, owner?_declare, hBefore, lastType?]
        by_cases hName : v.name = typeName <;> simp [hType, hName]
      · rw [hNote, owner?_declareMap, hBefore, lastType?]
        simp [hType]

theorem mapOf?_foldl_note {vs : List Visit} (complete : ∀ v ∈ vs, ¬ v.declaration.LacksSide)
    (typeName : String) (entry : MapEntry) :
    (vs.foldl note empty).mapOf? typeName = some entry ↔
      ∃ v m, lastKeyValue? vs typeName = some v ∧ v.declaration.item = .mapEntry m ∧
        m.keyValue? = some entry := by
  induction vs using List.reverseRecOn with
  | nil => simp [lastKeyValue?]
  | append_singleton vs v ih =>
      have hBefore := ih fun w hw => complete w (List.mem_append_left _ hw)
      rw [List.foldl_append, List.foldl_cons, List.foldl_nil, lastKeyValue?, List.reverse_append,
        List.reverse_singleton, List.singleton_append, List.find?_cons]
      obtain ⟨hType, hNote⟩ | ⟨hType, m, known, hItem, hKnown, hNote⟩ :=
        note_cases (vs.foldl note empty) (complete v (by simp))
      · rw [hNote, mapOf?_declare, hBefore, lastKeyValue?]
        simp [Visit.isMapEntry, hType]
      · rw [hNote, mapOf?_declareMap]
        by_cases hName : v.name = typeName
        · simp [Visit.isMapEntry, hType, hName, hItem, hKnown]
        · rw [if_neg hName, hBefore, lastKeyValue?]
          simp [hName]

theorem size_declare (registry : Registry) (file typeName : String) :
    (registry.declare file typeName).size =
      if (registry.owner? typeName).isSome then registry.size else registry.size + 1 := by
  simp only [size, declare, owner?, Std.ExtTreeMap.size_insert,
    Std.ExtTreeMap.isSome_getElem?_iff_mem, Std.ExtTreeMap.mem_iff_contains]

theorem size_declareMap (registry : Registry) (typeName : String) (entry : MapEntry) :
    (registry.declareMap typeName entry).size = registry.size := rfl

theorem size_foldl_note {vs : List Visit} (complete : ∀ v ∈ vs, ¬ v.declaration.LacksSide) :
    (vs.foldl note empty).size = ((vs.filter Visit.isType).map Visit.name).toFinset.card := by
  induction vs using List.reverseRecOn with
  | nil => simp [size, empty]
  | append_singleton vs v ih =>
      have hBefore : ∀ w ∈ vs, ¬ w.declaration.LacksSide :=
        fun w hw => complete w (List.mem_append_left _ hw)
      rw [List.foldl_append, List.foldl_cons, List.foldl_nil, List.filter_append, List.map_append]
      obtain ⟨hType, hNote⟩ | ⟨hType, m, entry, -, -, hNote⟩ :=
        note_cases (vs.foldl note empty) (complete v (by simp))
      · have hNames : ((vs.filter Visit.isType).map Visit.name ++
            ([v].filter Visit.isType).map Visit.name).toFinset =
            insert v.name ((vs.filter Visit.isType).map Visit.name).toFinset := by
          rw [List.filter_cons_of_pos hType, List.toFinset_append, Finset.union_comm]
          rfl
        -- the table grows unless a type of the name has been visited before
        have hKnown : ((vs.foldl note empty).owner? v.name).isSome ↔
            v.name ∈ ((vs.filter Visit.isType).map Visit.name).toFinset := by
          rw [owner?_foldl_note hBefore, lastType?, Option.isSome_map, List.find?_isSome]
          simp [and_assoc]
        rw [hNote, size_declare, ih hBefore, hNames, Finset.card_insert_eq_ite]
        simp only [hKnown]
      · rw [hNote, size_declareMap, ih hBefore]
        simp [hType]

end Registry

/-! ## Map entries are closed -/

mutual

/-- The message with nothing declared inside the map entries in it. -/
def MessageDescriptor.emptied : MessageDescriptor → MessageDescriptor
  | ⟨name?, fields, nested, enums, oneofs, isMapEntry⟩ =>
    if isMapEntry then ⟨name?, fields, [], [], oneofs, isMapEntry⟩
    else ⟨name?, fields, MessageDescriptor.allEmptied nested, enums, oneofs, isMapEntry⟩

def MessageDescriptor.allEmptied : List MessageDescriptor → List MessageDescriptor
  | [] => []
  | m :: rest => m.emptied :: MessageDescriptor.allEmptied rest

end

/-- The file with nothing declared inside its map entries. -/
def FileDescriptor.emptied (file : FileDescriptor) : FileDescriptor :=
  { file with messages := MessageDescriptor.allEmptied file.messages }

namespace Registry

mutual

theorem registerMessage_emptied (file scope : String) (registry : Registry) :
    ∀ m : MessageDescriptor, registerMessage file scope registry m.emptied =
      registerMessage file scope registry m
  | ⟨name?, fields, nested, enums, oneofs, isMapEntry⟩ => by
      rw [MessageDescriptor.emptied]
      cases isMapEntry with
      | true => rfl
      | false =>
          show registerMessage file scope registry
            ⟨name?, fields, MessageDescriptor.allEmptied nested, enums, oneofs, false⟩ = _
          rw [registerMessage, registerMessage]
          exact registerMessages_allEmptied file _ _ nested

theorem registerMessages_allEmptied (file scope : String) (registry : Registry) :
    ∀ ms : List MessageDescriptor,
      registerMessages file scope registry (MessageDescriptor.allEmptied ms) =
        registerMessages file scope registry ms
  | [] => rfl
  | m :: rest => by
      rw [MessageDescriptor.allEmptied, registerMessages, registerMessages,
        registerMessage_emptied file scope registry m]
      split
      · exact registerMessages_allEmptied file scope _ rest
      · rfl

end

/-- **What is declared inside a map entry makes no difference.** -/
theorem register_emptied (registry : Registry) (file : FileDescriptor) :
    registry.register file.emptied = registry.register file :=
  registerMessages_allEmptied file.name (fileScope file) _ file.messages

/-! ## The registry and the visits -/

theorem complete_of_mem_visits {files : List FileDescriptor} {v : Visit} (h : v ∈ visits files) :
    ¬ v.declaration.LacksSide := by
  obtain ⟨file, -, hVisited⟩ := List.mem_flatMap.1 h
  obtain ⟨d, hd, rfl⟩ := List.mem_map.1 hVisited
  simpa using List.all_eq_true.1 List.all_takeWhile d hd

/-- In the registry of some files, a type belongs to the file of the last visit to it. -/
theorem owner?_ofFiles {files : List FileDescriptor} {registry : Registry}
    (hRegistry : ofFiles files = .ok registry) (typeName : String) :
    registry.owner? typeName = (lastType? (visits files) typeName).map (·.file.name) := by
  have hEach : registry = registerEach files := registerAll_eq_foldl hRegistry
  rw [hEach, registerEach_eq_foldl, owner?_foldl_note fun v hv => complete_of_mem_visits hv]

/-- The registry of some files knows every type that one of them declares. -/
theorem owner?_isSome {files : List FileDescriptor} {registry : Registry}
    (hRegistry : ofFiles files = .ok registry) {file : FileDescriptor} (hFile : file ∈ files)
    {d : Declaration} (hd : d ∈ file.declarations) (hType : d.isType) :
    (registry.owner? (d.typeName (fileScope file))).isSome := by
  have hComplete : ∀ d ∈ file.declarations, ¬ d.LacksSide :=
    (registerAll_succeeds_iff empty files).1 ⟨registry, hRegistry⟩ file hFile
  have hVisited : file.visited = file.declarations :=
    List.takeWhile_eq_self_iff.2 fun d hd => by simpa using hComplete d hd
  have hVisit : Visit.mk file d ∈ visits files :=
    List.mem_flatMap.2 ⟨file, hFile, List.mem_map_of_mem (hVisited ▸ hd)⟩
  rw [owner?_ofFiles hRegistry, Option.isSome_map, lastType?, List.find?_isSome]
  exact ⟨_, List.mem_reverse.2 hVisit,
    by simp [Visit.isType, hType, Visit.name, typeName_eq_qualifiedName]⟩

/-- **The registry is what the visits say**, after any sequence of files, also when some of them
fail. A file fails exactly if a map entry that it declares lacks a side, and the failure names the
first such entry. The file that declares a type is the one of the last visit to a type of that name,
the key and the value of a map entry are the first fields numbered 1 and 2 of the last map entry of
that name, the number of declared types is the number of different names of visited types, and what
is declared inside a map entry makes no difference. -/
theorem registerEach_eq_visits (files : List FileDescriptor) :
    (∀ (registry : Registry) (file : FileDescriptor), (registry.register file).2 =
      (file.declarations.find? fun d => d.LacksSide).map
        fun d => .incompleteMapEntry (file.qualifiedName d)) ∧
    (∀ typeName, (registerEach files).owner? typeName =
      (lastType? (visits files) typeName).map (·.file.name)) ∧
    (∀ typeName key value, (registerEach files).mapOf? typeName = some ⟨key, value⟩ ↔
      ∃ v m, lastKeyValue? (visits files) typeName = some v ∧ v.declaration.item = .mapEntry m ∧
        m.fields.find? (·.number = 1) = some key ∧ m.fields.find? (·.number = 2) = some value) ∧
    (registerEach files).size =
      (((visits files).filter Visit.isType).map Visit.name).toFinset.card ∧
    registerEach (files.map FileDescriptor.emptied) = registerEach files := by
  have hComplete : ∀ v ∈ visits files, ¬ v.declaration.LacksSide :=
    fun v hv => complete_of_mem_visits hv
  refine ⟨register_failure, fun typeName => ?_, fun typeName key value => ?_, ?_, ?_⟩
  · rw [registerEach_eq_foldl, owner?_foldl_note hComplete]
  · rw [registerEach_eq_foldl, mapOf?_foldl_note hComplete]
    simp only [MessageDescriptor.keyValue?_eq_some]
  · rw [registerEach_eq_foldl, size_foldl_note hComplete]
  · rw [registerEach, List.foldl_map]
    simp only [register_emptied]
    rfl

/-- A file whose second message is a map entry without a value. -/
def interrupted : FileDescriptor :=
  { FileDescriptor.blank with
    name := "interrupted.proto", package := "p"
    messages := [⟨some "First", [], [], [⟨"Kind", []⟩], [], false⟩,
      ⟨some "HalfEntry",
        [⟨some "key", some 1, .optional, some 9, none, "", none, false, false, false⟩],
        [], [], [], true⟩,
      ⟨some "Second", [], [], [], [], false⟩] }

/-- What stands in front of the map entry is registered and what stands behind it is not. -/
example : (empty.register interrupted).2 = some (.incompleteMapEntry ".p.HalfEntry") ∧
    (registerEach [interrupted]).owner? ".p.First.Kind" = some "interrupted.proto" ∧
    (registerEach [interrupted]).owner? ".p.Second" = none := by decide +kernel

end Registry

end Protoscribe

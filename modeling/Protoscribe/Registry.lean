import Std.Data.ExtTreeMap
import Protoscribe.Descriptor
import Protoscribe.Failure

set_option autoImplicit false

/-! # The registry of declared types

The registry knows, for each qualified name, the file that declares the enum or message of that
name, and for each map entry its key and value fields. A qualified name starts with a dot, then
the package when there is one, the enclosing messages and the simple name, `.pkg.Outer.Inner`.
Declaring a name again replaces what was known about it.

A map entry counts neither as a declared type nor as a place for declarations: nothing inside it
is registered. The two tables compare as functions, so two registries that answer every question
alike are equal.
-/

namespace Protoscribe

/-- What the files read so far declare. -/
structure Registry where
  owners : Std.ExtTreeMap String String
  mapEntries : Std.ExtTreeMap String MapEntry

namespace Registry

/-- The registry in which nothing is declared. -/
def empty : Registry := ⟨∅, ∅⟩

/-- The file that declares a type. -/
def owner? (registry : Registry) (typeName : String) : Option String :=
  registry.owners[typeName]?

/-- The key and value fields of a map entry. -/
def mapOf? (registry : Registry) (typeName : String) : Option MapEntry :=
  registry.mapEntries[typeName]?

/-- The number of declared types, map entries left out. -/
def size (registry : Registry) : Nat := registry.owners.size

def isEmpty (registry : Registry) : Bool :=
  registry.owners.isEmpty && registry.mapEntries.isEmpty

/-- The registry in which `file` also declares the type `typeName`. -/
def declare (registry : Registry) (file typeName : String) : Registry :=
  { registry with owners := registry.owners.insert typeName file }

/-- The registry that also knows a map entry. -/
def declareMap (registry : Registry) (typeName : String) (entry : MapEntry) : Registry :=
  { registry with mapEntries := registry.mapEntries.insert typeName entry }

@[simp] theorem owner?_empty (typeName : String) : empty.owner? typeName = none := by
  simp [owner?, empty]

@[simp] theorem mapOf?_empty (typeName : String) : empty.mapOf? typeName = none := by
  simp [mapOf?, empty]

theorem owner?_declare (registry : Registry) (file typeName other : String) :
    (registry.declare file typeName).owner? other =
      if typeName = other then some file else registry.owner? other := by
  simp [owner?, declare, Std.ExtTreeMap.getElem?_insert]

@[simp] theorem mapOf?_declare (registry : Registry) (file typeName other : String) :
    (registry.declare file typeName).mapOf? other = registry.mapOf? other := rfl

@[simp] theorem owner?_declareMap (registry : Registry) (typeName other : String)
    (entry : MapEntry) : (registry.declareMap typeName entry).owner? other = registry.owner? other :=
  rfl

theorem mapOf?_declareMap (registry : Registry) (typeName other : String) (entry : MapEntry) :
    (registry.declareMap typeName entry).mapOf? other =
      if typeName = other then some entry else registry.mapOf? other := by
  simp [mapOf?, declareMap, Std.ExtTreeMap.getElem?_insert]

/-- **Two registries that answer every question alike are equal.** -/
theorem ext_lookup {a b : Registry} (owners : ∀ typeName, a.owner? typeName = b.owner? typeName)
    (maps : ∀ typeName, a.mapOf? typeName = b.mapOf? typeName) : a = b := by
  obtain ⟨ao, am⟩ := a
  obtain ⟨bo, bm⟩ := b
  have ho : ao = bo := Std.ExtTreeMap.ext_getElem? owners
  have hm : am = bm := Std.ExtTreeMap.ext_getElem? maps
  rw [ho, hm]

end Registry

/-- The name `simple` inside the scope `outer`. -/
def qualified (outer simple : String) : String := outer ++ "." ++ simple

namespace Registry

/-- The registry after the enums declared in one place. -/
def registerEnums (file outer : String) (registry : Registry) (enums : List EnumDescriptor) :
    Registry :=
  enums.foldl (fun registry e => registry.declare file (qualified outer e.name)) registry

mutual

/-- The registry after a message and everything declared in it. At a map entry that lacks its
key or value field the registration stops, and what was registered before stays. -/
def registerMessage (file outer : String) (registry : Registry) :
    MessageDescriptor → Registry × Option Failure
  | ⟨name?, fields, nested, enums, oneofs, isMapEntry⟩ =>
    let typeName := qualified outer (name?.getD "")
    if isMapEntry then
      -- what is declared inside a map entry is left out, even messages and enums
      match (MessageDescriptor.mk name? fields nested enums oneofs isMapEntry).keyValue? with
      | some entry => (registry.declareMap typeName entry, none)
      | none => (registry, some (.incompleteMapEntry typeName))
    else
      registerMessages file typeName
        (registerEnums file typeName (registry.declare file typeName) enums) nested

/-- The registry after the messages declared in one place. -/
def registerMessages (file outer : String) (registry : Registry) :
    List MessageDescriptor → Registry × Option Failure
  | [] => (registry, none)
  | message :: rest =>
    match registerMessage file outer registry message with
    | (registry, none) => registerMessages file outer registry rest
    | (registry, some failure) => (registry, some failure)

end

/-- The scope of the names that a file declares at its top. -/
def fileScope (file : FileDescriptor) : String :=
  if file.package = "" then "" else "." ++ file.package

/-- The registry after a file. -/
def register (registry : Registry) (file : FileDescriptor) : Registry × Option Failure :=
  registerMessages file.name (fileScope file)
    (registerEnums file.name (fileScope file) registry file.enums) file.messages

/-- The registry after several files, or the first failure. -/
def registerAll (registry : Registry) : List FileDescriptor → Except Failure Registry
  | [] => .ok registry
  | file :: rest =>
    match registry.register file with
    | (registry, none) => registry.registerAll rest
    | (_, some failure) => .error failure

/-- The registry of a list of files. -/
def ofFiles (files : List FileDescriptor) : Except Failure Registry :=
  empty.registerAll files

end Registry

end Protoscribe

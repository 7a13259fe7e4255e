import Mathlib.Data.List.Basic
import Protoscribe.SourceFile
import Std.Data.String.ToInt

set_option autoImplicit false

/-! # The scope of a module

The scope of the module of a file differs from the scope of a file that imports nothing only in
the imported identifiers (`scope_eq`). Each imported file has an identifier, and that identifier is
the one of an import (`identifier_of_dependency`) and of no other (`find?_dependencyImports`).
-/

namespace Protoscribe

open TypeScript

/-- What only one element of a list meets is found there. -/
theorem find?_eq_some_of_only {α : Type} {l : List α} {test : α → Bool} {a : α} (ha : a ∈ l)
    (hTest : test a) (only : ∀ b ∈ l, test b → b = a) : l.find? test = some a := by
  obtain ⟨found, hFound⟩ := Option.isSome_iff_exists.1 (List.find?_isSome.2 ⟨a, ha, hTest⟩)
  rw [hFound, only found (List.mem_of_find?_eq_some hFound) (List.find?_some hFound)]

namespace FileDescriptor

/-- Importing files only adds identifiers to a scope, the latest first. -/
theorem scope_eq (file : FileDescriptor) (registry : Registry) :
    file.scope registry =
      { Scope.ofFile registry file with imported := file.importNames.reverse } := by
  have hFold : ∀ (names : List (String × String)) (s : Scope),
      names.foldl (fun s (name : String × String) => s.importing name.1 name.2) s =
        { s with imported := names.reverse ++ s.imported } := by
    intro names
    induction names with
    | nil => intro s; rfl
    | cons name names ih =>
        intro s
        rw [List.foldl_cons, ih, List.reverse_cons, List.append_assoc]
        rfl
  have hNames := hFold file.importNames (.ofFile registry file)
  rwa [show (Scope.ofFile registry file).imported = [] from rfl, List.append_nil] at hNames

@[simp] theorem scope_registry (file : FileDescriptor) (registry : Registry) :
    (file.scope registry).registry = registry := by
  rw [scope_eq]
  rfl

@[simp] theorem scope_file (file : FileDescriptor) (registry : Registry) :
    (file.scope registry).file = file := by
  rw [scope_eq]
  rfl

/-- The runtime has the same identifier in every module. -/
@[simp] theorem scope_runtime (file : FileDescriptor) (registry : Registry) :
    (file.scope registry).runtime = "pb_1" := by
  rw [scope_eq]
  rfl

@[simp] theorem scope_callRuntime (file : FileDescriptor) (registry : Registry) :
    (file.scope registry).callRuntime = "grpc_1" := by
  rw [scope_eq]
  rfl

theorem scope_imported (file : FileDescriptor) (registry : Registry) :
    (file.scope registry).imported = file.importNames.reverse := by
  rw [scope_eq]

/-- A file that is imported has an identifier, and the identifier is that of an import. -/
theorem identifier_of_dependency (file : FileDescriptor) (registry : Registry)
    {dependency : String} (h : dependency ∈ file.dependencies) :
    ∃ identifier, (file.scope registry).identifier? dependency = some identifier ∧
      ⟨identifier, ModulePath.relative file.name dependency⟩ ∈ file.dependencyImports := by
  obtain ⟨index, hIndex, rfl⟩ := List.mem_iff_getElem.1 h
  have hName : (file.dependencies[index], importName index) ∈ file.importNames.reverse := by
    rw [List.mem_reverse, FileDescriptor.importNames, List.mem_mapIdx]
    exact ⟨index, hIndex, rfl⟩
  have hKnown : (file.importNames.reverse.lookup file.dependencies[index]).isSome :=
    List.lookup_isSome_iff.2 ⟨_, hName, beq_self_eq_true _⟩
  obtain ⟨identifier, hIdentifier⟩ := Option.isSome_iff_exists.1 hKnown
  refine ⟨identifier, ?_, ?_⟩
  · rw [Scope.identifier?, scope_imported, hIdentifier]
  · obtain ⟨before, after, hSplit, -⟩ := List.lookup_eq_some_iff.1 hIdentifier
    have hMem : (file.dependencies[index], identifier) ∈ file.importNames := by
      rw [← List.mem_reverse, hSplit]
      simp
    exact List.mem_map.2 ⟨_, hMem, rfl⟩

/-- Modules imported at different positions have different identifiers. -/
theorem importName_injective : Function.Injective importName := by
  intro i j h
  have hNumbers : Int.repr (i + 1 : Nat) = Int.repr (j + 1 : Nat) := (String.append_right_inj _).1 h
  have hSame := Int.repr_inj.1 hNumbers
  omega

theorem mem_dependencyImports {file : FileDescriptor} {i : Import} :
    i ∈ file.dependencyImports ↔ ∃ (index : Nat) (h : index < file.dependencies.length),
      i = ⟨importName index, ModulePath.relative file.name file.dependencies[index]⟩ := by
  simp only [dependencyImports, importNames, List.mem_map, List.mem_mapIdx]
  constructor
  · rintro ⟨_, ⟨index, h, rfl⟩, rfl⟩
    exact ⟨index, h, rfl⟩
  · rintro ⟨index, h, rfl⟩
    exact ⟨_, ⟨index, h, rfl⟩, rfl⟩

/-- The import of another module is found under its identifier. -/
theorem find?_dependencyImports {file : FileDescriptor} {i : Import}
    (h : i ∈ file.dependencyImports) :
    file.dependencyImports.find? (·.identifier = i.identifier) = some i := by
  refine find?_eq_some_of_only h (by simp) fun other hOther hSame => ?_
  obtain ⟨index, _, rfl⟩ := mem_dependencyImports.1 h
  obtain ⟨position, _, rfl⟩ := mem_dependencyImports.1 hOther
  obtain rfl := importName_injective (by simpa using hSame)
  rfl

end FileDescriptor

end Protoscribe

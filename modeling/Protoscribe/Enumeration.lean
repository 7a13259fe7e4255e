import Protoscribe.Descriptor
import Protoscribe.TypeScript.Decl.Basic

set_option autoImplicit false

/-! # Enums -/

namespace Protoscribe

/-- An enum as an emitted enum: the same names with the same numbers, in the same order. -/
def EnumDescriptor.decl (e : EnumDescriptor) : TypeScript.Decl :=
  .enumeration ⟨e.name, e.values.map fun value => (value.name, value.number)⟩

end Protoscribe

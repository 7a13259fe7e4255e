import Protoscribe.Enumeration
import Protoscribe.Message.Access
import Protoscribe.Message.Plain
import Protoscribe.Message.Codec

set_option autoImplicit false

/-! # The declarations of a message

A message becomes a class. The enums and messages declared in it go into a namespace of the same
name, which is left out when there are none; map entries are no declarations.
-/

namespace Protoscribe

open TypeScript

/-- The members of the class of a planned message. -/
def Plan.members (scope : Scope) (plan : Plan) : List Member :=
  [Instance.constructor scope plan]
    ++ Access.accessors scope plan
    ++ Access.caseGetters scope plan
    ++ [Plain.fromObject scope plan, Plain.toObject scope plan]
    ++ Codec.serialize scope plan
    ++ [Codec.deserialize scope plan]
    ++ Codec.byteMethods plan

/-- The class of a planned message. -/
def Plan.decl (scope : Scope) (plan : Plan) : Decl :=
  .classDecl ⟨plan.name, false, some scope.runtimeMessage, plan.members scope⟩

/-- The namespace of what is declared in a message, unless nothing is. -/
def innerDecls (name : String) (body : List Decl) : List Decl :=
  match body with
  | [] => []
  | _ :: _ => [.nspace name body]

mutual

/-- The declarations of a message. -/
def Scope.messageDecls (scope : Scope) : MessageDescriptor → Except Failure (List Decl)
  | ⟨name?, fields, nested, enums, oneofs, isMapEntry⟩ => do
    let plan ← scope.plan ⟨name?, fields, nested, enums, oneofs, isMapEntry⟩
    let inner ← scope.nestedDecls nested
    return plan.decl scope :: innerDecls plan.name (enums.map EnumDescriptor.decl ++ inner)

/-- The declarations of the messages declared in a message. -/
def Scope.nestedDecls (scope : Scope) : List MessageDescriptor → Except Failure (List Decl)
  | [] => return []
  | message :: rest =>
    if message.isMapEntry then scope.nestedDecls rest
    else do
      let first ← scope.messageDecls message
      let others ← scope.nestedDecls rest
      return first ++ others

end

end Protoscribe

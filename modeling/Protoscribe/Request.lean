import Protoscribe.SourceFile
import Protoscribe.TypeScript.Decl.Layout

set_option autoImplicit false

/-! # Requests and responses

A request names the files to generate among all the files it describes. The response holds one
generated file for each, in the order of the request, or the text of the first failure and no
file at all.
-/

namespace Protoscribe

/-- What a generator is asked for. -/
structure Request where
  /-- The names of the files to generate code for. -/
  wanted : List String
  /-- The text of the settings. -/
  parameter : String
  version : Option Version
  files : List FileDescriptor

/-- A file of generated code. -/
structure GeneratedFile where
  name : String
  content : String

/-- What a generator answers. -/
structure Response where
  error : Option String
  /-- The features of proto files that the generator knows, as a bit set. -/
  features : Nat
  files : List GeneratedFile

namespace Request

/-- The settings of a request. -/
def settings (request : Request) : Settings := .ofText request.parameter

/-- The first described file of a name. -/
def find (request : Request) (name : String) : Except Failure FileDescriptor :=
  match request.files.find? (·.name = name) with
  | some file => .ok file
  | none => .error (.unknownFile name)

/-- The generated code for the file of a name. -/
def generateFile (request : Request) (registry : Registry) (name : String) :
    Except Failure GeneratedFile := do
  let file ← request.find name
  let source ← file.sourceFile registry request.settings request.version
  return ⟨ModulePath.output file.name, source.text⟩

/-- The generated code for all requested files. -/
def generateFiles (request : Request) : Except Failure (List GeneratedFile) := do
  let registry ← Registry.ofFiles request.files
  request.wanted.mapM (request.generateFile registry)

/-- The features that every response announces: fields marked optional in the newer syntax. -/
def features : Nat := 1

/-- The response to a request. -/
def respond (request : Request) : Response :=
  match request.generateFiles with
  | .ok files => ⟨none, features, files⟩
  | .error failure => ⟨some failure.text, features, []⟩

end Request

end Protoscribe

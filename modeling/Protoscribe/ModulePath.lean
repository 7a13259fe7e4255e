import Protoscribe.Text.Affix
import Protoscribe.Text.Segments

set_option autoImplicit false

/-! # Module paths

Each proto file gives one module beside it. A module refers to another one by a path relative to
its own directory: up to the deepest directory that both share, and down from there.
-/

namespace Protoscribe.ModulePath

/-- The name of a proto file without its ending. -/
def stem (file : String) : String := (Text.beforeEnding? ".proto" file).getD file

/-- The file that the module of a proto file is written to. -/
def output (file : String) : String := stem file ++ ".ts"

/-- The number of segments in which two lists agree from the start. -/
def sharedLength : List String → List String → Nat
  | a :: as, b :: bs => if a = b then sharedLength as bs + 1 else 0
  | _, _ => 0

/-- The segments that lead from a directory to a target. -/
def steps (directory target : List String) : List String :=
  -- the last segment of the target names the module and is never shared
  let shared := sharedLength directory target.dropLast
  List.replicate (directory.length - shared) ".." ++ target.drop shared

/-- The path by which the module of `importer` refers to the module of `dependency`. -/
def relative (importer dependency : String) : String :=
  "./" ++ String.intercalate "/"
    (steps (Text.segments '/' importer).dropLast (Text.segments '/' (stem dependency)))

end Protoscribe.ModulePath

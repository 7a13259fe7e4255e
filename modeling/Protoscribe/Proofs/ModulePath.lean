import Protoscribe.ModulePath
import Protoscribe.Proofs.Text.Segments

set_option autoImplicit false

/-! # Relative module paths lead to the module

A relative path is followed segment by segment from a directory: `.` stays, `..` goes up one
directory, any other segment goes down (`follow`). Main statements: `resolve_relative`, from the
directory of a file's module the path to a dependency leads to the module of the dependency, and
`relative_fewest_climbs`, no path that leads there by the name of the module goes up less often.

A path that goes up `n` times keeps all but the last `n` directories that it starts from
(`take_prefix_of_follow`). What it keeps is shared with the target, and the relative path goes up
to the last shared directory and no further.
-/

namespace Protoscribe.ModulePath

/-- Where the steps of a path lead from a directory, unless they climb above the root. -/
def follow : List String → List String → Option (List String)
  | place, [] => some place
  | place, step :: rest =>
    if step = "." then follow place rest
    else if step = ".." then if place = [] then none else follow place.dropLast rest
    else follow (place ++ [step]) rest

/-- Where a path leads from a directory. -/
def resolve (directory : List String) (path : String) : Option (List String) :=
  follow directory (Text.segments '/' path)

/-- The directory that a file lies in. -/
def directory (file : String) : List String := (Text.segments '/' file).dropLast

/-- A segment that names a directory or a file. -/
def Plain (segment : String) : Prop := segment ≠ "" ∧ segment ≠ "." ∧ segment ≠ ".."

instance (segment : String) : Decidable (Plain segment) := inferInstanceAs (Decidable (_ ∧ _ ∧ _))

/-- Without its ending, the path of the file consists of names. -/
def PlainPath (file : String) : Prop := ∀ segment ∈ Text.segments '/' (stem file), Plain segment

instance (file : String) : Decidable (PlainPath file) :=
  inferInstanceAs (Decidable (∀ segment ∈ Text.segments '/' (stem file), Plain segment))

/-! ## Following steps -/

theorem follow_down {place steps : List String} (h : ∀ step ∈ steps, Plain step) :
    follow place steps = some (place ++ steps) := by
  induction steps generalizing place with
  | nil => simp [follow]
  | cons step steps ih =>
      obtain ⟨⟨-, hDot, hUp⟩, hRest⟩ := List.forall_mem_cons.1 h
      rw [follow, if_neg hDot, if_neg hUp, ih hRest, List.append_assoc, List.singleton_append]

theorem follow_up {place rest : List String} {n : Nat} (h : n ≤ place.length) :
    follow place (List.replicate n ".." ++ rest) =
      follow (place.take (place.length - n)) rest := by
  induction n generalizing place with
  | zero => simp
  | succ n ih =>
      rcases place with _ | ⟨first, others⟩
      · simp at h
      · have hLength : (first :: others).dropLast.length = others.length := by simp
        have hTake : ((first :: others).dropLast).take (others.length - n) =
            (first :: others).take (others.length - n) := by
          rw [List.dropLast_eq_take, List.take_take]
          congr 1
          simp only [List.length_cons]
          omega
        rw [List.replicate_succ, List.cons_append, follow, if_neg (by decide), if_pos rfl,
          if_neg (List.cons_ne_nil first others)]
        simp only [List.length_cons] at h
        rw [ih (by omega), hLength, hTake]
        simp only [List.length_cons]
        congr 2
        omega

theorem sharedLength_le : ∀ as bs : List String,
    sharedLength as bs ≤ as.length ∧ sharedLength as bs ≤ bs.length
  | [], _ => by simp [sharedLength]
  | _ :: _, [] => by simp [sharedLength]
  | a :: as, b :: bs => by
      have := sharedLength_le as bs
      rw [sharedLength]
      split
      · simp only [List.length_cons]
        omega
      · simp

theorem take_sharedLength : ∀ as bs : List String,
    as.take (sharedLength as bs) = bs.take (sharedLength as bs)
  | [], _ => by simp [sharedLength]
  | _ :: _, [] => by simp [sharedLength]
  | a :: as, b :: bs => by
      rw [sharedLength]
      split
      · rename_i h
        rw [List.take_succ_cons, List.take_succ_cons, h, take_sharedLength as bs]
      · simp

/-- **The steps from a directory to a target lead to the target.** -/
theorem follow_steps {place target : List String} (h : ∀ step ∈ target, Plain step) :
    follow place (steps place target) = some target := by
  obtain ⟨hPlace, hTarget⟩ := sharedLength_le place target.dropLast
  have hTake := take_sharedLength place target.dropLast
  rw [steps]
  generalize sharedLength place target.dropLast = shared at *
  rw [follow_up (Nat.sub_le _ _), follow_down fun step hs => h step (List.mem_of_mem_drop hs)]
  have hUp : place.length - (place.length - shared) = shared := by omega
  have hSame : place.take shared = target.take shared := by
    rw [hTake, List.dropLast_eq_take, List.take_take]
    congr 1
    rw [List.length_dropLast] at hTarget
    omega
  rw [hUp, hSame, List.take_append_drop]

/-! ## Paths as texts -/

theorem not_mem_step {place : List String} {file step : String}
    (h : step ∈ steps place (Text.segments '/' file)) : '/' ∉ step.toList := by
  rw [steps, List.mem_append] at h
  rcases h with h | h
  · rw [List.eq_of_mem_replicate h]
    decide
  · exact Text.not_mem_segment (List.mem_of_mem_drop h)

theorem steps_ne_nil {place target : List String} (h : target ≠ []) : steps place target ≠ [] := by
  have hLe := (sharedLength_le place target.dropLast).2
  have hPos : 0 < target.length := List.length_pos_iff.2 h
  rw [List.length_dropLast] at hLe
  have hDrop : target.drop (sharedLength place target.dropLast) ≠ [] := by
    rw [Ne, List.drop_eq_nil_iff]
    omega
  rw [steps]
  simp [hDrop]

/-- The path to a dependency is one dot and the steps to it. -/
theorem segments_relative (importer dependency : String) :
    Text.segments '/' (relative importer dependency) =
      "." :: steps (directory importer) (Text.segments '/' (stem dependency)) := by
  have hNonempty : steps (directory importer) (Text.segments '/' (stem dependency)) ≠ [] :=
    steps_ne_nil (Text.segments_ne_nil '/' (stem dependency))
  have hJoin := Text.segments_intercalate (fun step h => not_mem_step h) hNonempty
  have hStart : relative importer dependency = "." ++ (String.singleton '/' ++
      String.intercalate (String.singleton '/')
        (steps (directory importer) (Text.segments '/' (stem dependency)))) := by
    rw [relative, directory, ← String.append_assoc]
    rfl
  rw [hStart, Text.segments_append, hJoin, Text.segments_eq_singleton (by decide)]
  rfl

/-- A file and its module lie in one directory. -/
theorem directory_output (file : String) : directory (output file) = directory file := by
  have hOutput : directory (output file) = directory (stem file) :=
    Text.dropLast_segments_append (stem file) ".ts" (by decide)
  rw [hOutput, stem]
  cases h : Text.beforeEnding? ".proto" file with
  | none => rfl
  | some start =>
      rw [Text.beforeEnding?_eq_some.1 h]
      exact (Text.dropLast_segments_append start ".proto" (by decide)).symm

/-- **The relative path to a dependency leads to the dependency's module**, from the directory of
the importing module. -/
theorem resolve_relative {importer dependency : String} (h : PlainPath dependency) :
    resolve (directory (output importer)) (relative importer dependency) =
      some (Text.segments '/' (stem dependency)) := by
  rw [directory_output, resolve, segments_relative, follow, if_pos rfl]
  exact follow_steps h

/-! ## Going up as little as possible -/

/-- How often a path goes up one directory. -/
def climbs (path : String) : Nat := (Text.segments '/' path).count ".."

theorem follow_append (place first second : List String) :
    follow place (first ++ second) = (follow place first).bind fun middle => follow middle second := by
  induction first generalizing place with
  | nil => rfl
  | cons step first ih =>
      rw [List.cons_append, follow, follow]
      split_ifs
      · exact ih place
      · rfl
      · exact ih place.dropLast
      · exact ih (place ++ [step])

/-- **All directories stay but one for each step up**, counted from the deepest one. -/
theorem take_prefix_of_follow {place steps final : List String}
    (h : follow place steps = some final) :
    place.take (place.length - steps.count "..") <+: final := by
  induction steps generalizing place with
  | nil =>
      obtain rfl : place = final := Option.some.inj h
      exact List.take_prefix _ _
  | cons step steps ih =>
      rw [follow] at h
      split_ifs at h with hDot hUp hRoot
      · rw [List.count_cons_of_ne (by simp [hDot])]
        exact ih h
      · have hKept := ih h
        rw [List.dropLast_eq_take, List.take_take, List.length_take] at hKept
        rw [hUp, List.count_cons_self]
        have hCount : min (min (place.length - 1) place.length - steps.count "..")
            (place.length - 1) = place.length - (steps.count ".." + 1) := by omega
        rwa [hCount] at hKept
      · rw [List.count_cons_of_ne hUp]
        have hKept := ih h
        have hLonger : (place ++ [step]).take (place.length - steps.count "..") =
            place.take (place.length - steps.count "..") :=
          List.take_append_of_le_length (Nat.sub_le _ _)
        rw [← hLonger]
        refine List.IsPrefix.trans (List.take_prefix_take_left ?_) hKept
        rw [List.length_append]
        omega

/-- Directories that two lists begin with are shared. -/
theorem length_le_sharedLength {shared as bs : List String} (ha : shared <+: as)
    (hb : shared <+: bs) : shared.length ≤ sharedLength as bs := by
  induction shared generalizing as bs with
  | nil => exact Nat.zero_le _
  | cons first shared ih =>
      obtain ⟨restA, rfl, hRestA⟩ := List.cons_prefix_iff.1 ha
      obtain ⟨restB, rfl, hRestB⟩ := List.cons_prefix_iff.1 hb
      rw [sharedLength, if_pos rfl, List.length_cons]
      exact Nat.succ_le_succ (ih hRestA hRestB)

/-- The relative path goes up once for each directory of the importer that is not shared. -/
theorem climbs_relative {importer dependency : String} (h : PlainPath dependency) :
    climbs (relative importer dependency) = (directory importer).length -
      sharedLength (directory importer) (directory (stem dependency)) := by
  have hDown : ".." ∉ (Text.segments '/' (stem dependency)).drop
      (sharedLength (directory importer) (directory (stem dependency))) :=
    fun hMem => (h _ (List.mem_of_mem_drop hMem)).2.2 rfl
  rw [climbs, segments_relative, List.count_cons_of_ne (by decide), steps, List.count_append,
    List.count_replicate_self]
  exact (congrArg _ (List.count_eq_zero.2 hDown)).trans (Nat.add_zero _)

/-- **A path that leads to a file by its name goes up at least once for each directory that is not
shared with the file.** -/
theorem climbs_of_resolve {place target : List String} {name path : String} (hName : Plain name)
    (hLast : (Text.segments '/' path).getLast? = some name)
    (h : resolve place path = some (target ++ [name])) :
    place.length - sharedLength place target ≤ climbs path := by
  obtain ⟨before, hPath⟩ := List.getLast?_eq_some_iff.1 hLast
  -- in front of its last segment the path has come to the directory of the file
  have hTarget : follow place before = some target := by
    rw [resolve, hPath, follow_append] at h
    obtain ⟨middle, hMiddle, hStep⟩ := Option.bind_eq_some_iff.1 h
    rw [follow_down (by simpa using hName)] at hStep
    rw [hMiddle, (List.append_left_inj [name]).1 (Option.some.inj hStep)]
  have hShared := length_le_sharedLength (List.take_prefix _ _) (take_prefix_of_follow hTarget)
  have hCount : climbs path = before.count ".." := by
    rw [climbs, hPath, List.count_append, List.count_singleton, if_neg (by simpa using hName.2.2),
      Nat.add_zero]
  rw [List.length_take] at hShared
  omega

/-- The steps to a target end with its name. -/
theorem getLast?_steps (place : List String) {target : List String} (h : target ≠ []) :
    (steps place target).getLast? = target.getLast? := by
  rcases List.eq_nil_or_concat target with hNil | ⟨before, name, rfl⟩
  · exact absurd hNil h
  · rw [List.concat_eq_append, steps, List.dropLast_concat,
      List.drop_append_of_le_length (sharedLength_le place before).2, ← List.append_assoc,
      List.getLast?_concat, List.getLast?_concat]

theorem getLast?_relative (importer dependency : String) :
    (Text.segments '/' (relative importer dependency)).getLast? =
      (Text.segments '/' (stem dependency)).getLast? := by
  have hTarget := Text.segments_ne_nil '/' (stem dependency)
  rw [segments_relative, List.getLast?_cons_of_ne_nil (steps_ne_nil hTarget),
    getLast?_steps _ hTarget]

/-- **The relative path leads to the module and goes up no more often than it has to.** It begins
with `./`, it stays below the root and ends at the segments of the dependency without its ending,
which with `.ts` is the file that the module is written to, and every path that ends in the same name
and leads to the same place goes up at least as often. -/
theorem relative_fewest_climbs (importer : String) {dependency : String}
    (h : PlainPath dependency) :
    (∃ rest, relative importer dependency = "./" ++ rest) ∧
    resolve (directory importer) (relative importer dependency) =
      some (Text.segments '/' (stem dependency)) ∧
    String.intercalate "/" (Text.segments '/' (stem dependency)) ++ ".ts" = output dependency ∧
    (Text.segments '/' (relative importer dependency)).getLast? =
      (Text.segments '/' (stem dependency)).getLast? ∧
    ∀ path, (Text.segments '/' path).getLast? = (Text.segments '/' (stem dependency)).getLast? →
      resolve (directory importer) path = some (Text.segments '/' (stem dependency)) →
      climbs (relative importer dependency) ≤ climbs path := by
  obtain ⟨name, hName⟩ : ∃ name, (Text.segments '/' (stem dependency)).getLast? = some name :=
    Option.isSome_iff_exists.1 (by simp [Text.segments_ne_nil])
  have hSegments : Text.segments '/' (stem dependency) = directory (stem dependency) ++ [name] :=
    (List.dropLast_append_getLast? name hName).symm
  refine ⟨⟨_, rfl⟩, ?_, ?_, getLast?_relative importer dependency, fun path hLast hPath => ?_⟩
  · have hResolve : resolve (directory (output importer)) _ = _ := resolve_relative h
    rwa [directory_output] at hResolve
  · rw [show "/" = String.singleton '/' from rfl, Text.join_segments, output]
  · rw [climbs_relative h]
    refine climbs_of_resolve (h name (List.mem_of_getLast? hName)) (hLast.trans hName) ?_
    rw [hPath, hSegments]

/-- Between neighbouring directories one step up is needed and enough. -/
theorem relative_fewest_climbs_neighbour :
    PlainPath "x/z/b.proto" ∧ relative "x/y/a.proto" "x/z/b.proto" = "./../z/b" ∧
    climbs "./../z/b" = 1 ∧ ∀ path, (Text.segments '/' path).getLast? = some "b" →
      resolve ["x", "y"] path = some ["x", "z", "b"] → 1 ≤ climbs path := by
  have hPlain : PlainPath "x/z/b.proto" := by decide +kernel
  have hText : relative "x/y/a.proto" "x/z/b.proto" = "./../z/b" := by decide +kernel
  have hClimbs : climbs "./../z/b" = 1 := by decide +kernel
  have hPlaces : directory "x/y/a.proto" = ["x", "y"] ∧
      Text.segments '/' (stem "x/z/b.proto") = ["x", "z", "b"] := by decide +kernel
  obtain ⟨-, -, -, -, hLeast⟩ := relative_fewest_climbs "x/y/a.proto" hPlain
  rw [hText, hClimbs, hPlaces.1, hPlaces.2] at hLeast
  exact ⟨hPlain, hText, hClimbs, hLeast⟩

end Protoscribe.ModulePath

import EvidencePages.Proofs.Path
import EvidencePages.Store.FileStore

/-!
# Where a final dot leads

A path that ends in a slash or in `.` asks for a directory, and leads to nothing
else, whatever links are met on the way. So a path that leads to a file or a
device ends in a name.
-/

set_option autoImplicit false

namespace EvidencePages.FileStore

variable {store : FileStore} {vacant : Bool}

section Step

variable {follow : Location → List String → Except IoError Location} {here location : Location}

inductive Stepped (store : FileStore) (vacant : Bool)
    (follow : Location → List String → Except IoError Location) (here : Location)
    (name : String) (rest : List String) (location : Location) : Prop
  | stays (dot : name = ".") (success : store.walk vacant follow here rest = .ok location)
  | climbs (parent : name = "..")
    (success : store.walk vacant follow here.tail rest = .ok location)
  | free (last : rest = []) (end_eq : location = name :: here)
  | linked (target : Path)
    (success : follow (origin here target) (steps target ++ rest) = .ok location)
  | enters (node : Node) (found : store.node? (name :: here) = some node)
    (success : store.walk vacant follow (name :: here) rest = .ok location)

theorem stepped_of_walk {name : String} {rest : List String}
    (success : store.walk vacant follow here (name :: rest) = .ok location) :
    store.node? here = some .directory ∧
      Stepped store vacant follow here name rest location := by
  rw [walk] at success
  split at success
  · rename_i there
    refine ⟨there, ?_⟩
    split at success
    · rename_i dot
      exact .stays dot success
    split at success
    · rename_i parent
      exact .climbs parent success
    split at success
    · cases success
    split at success
    · split at success
      · rename_i last
        cases success
        exact .free (List.isEmpty_iff.mp (Bool.and_eq_true_iff.mp last).2) rfl
      · cases success
    · exact .linked _ success
    · rename_i found
      exact .enters _ found success
  · cases success

theorem walk_ends_at {last : String} {target : Node}
    (alone : ∀ here location, store.walk vacant follow here [last] = .ok location →
      store.node? location = some target)
    (followed : ∀ here names location, follow here (names ++ [last]) = .ok location →
      store.node? location = some target) (here : Location) (names : List String)
    (location : Location)
    (success : store.walk vacant follow here (names ++ [last]) = .ok location) :
    store.node? location = some target := by
  induction names generalizing here with
  | nil => exact alone here location success
  | cons name rest ih =>
    rw [List.cons_append] at success
    obtain ⟨-, step⟩ := stepped_of_walk success
    cases step with
    | stays dot success => exact ih here success
    | climbs parent success => exact ih here.tail success
    | free none end_eq =>
      exact absurd none (List.append_ne_nil_of_right_ne_nil _ (List.cons_ne_nil _ _))
    | linked path success =>
      rw [← List.append_assoc] at success
      exact followed _ _ _ success
    | enters node found success => exact ih (name :: here) success

end Step

def EndsInDirectory (store : FileStore)
    (follow : Location → List String → Except IoError Location) : Prop :=
  ∀ here names location, follow here (names ++ ["."]) = .ok location →
    store.node? location = some .directory

theorem EndsInDirectory.walk {follow : Location → List String → Except IoError Location}
    (followed : store.EndsInDirectory follow) :
    store.EndsInDirectory (store.walk vacant follow) := by
  refine walk_ends_at (fun here location success => ?_) followed
  rw [FileStore.walk] at success
  split at success
  · rename_i there
    rw [if_pos rfl] at success
    cases success
    exact there
  · cases success

theorem endsInDirectory_walkLinks (links : Nat) :
    store.EndsInDirectory (store.walkLinks vacant links) := by
  induction links with
  | zero => exact EndsInDirectory.walk fun _ _ _ failed => by cases failed
  | succ links ih => exact EndsInDirectory.walk ih

theorem steps_of_blank_end {path : Path} (some : path.text ≠ "") (blank : path.endsInName = false) :
    ∃ names, steps path = names ++ ["."] := by
  obtain ⟨before, last, cut⟩ := Text.exists_cut '/' path.text
  rw [Path.endsInName, cut, List.getLast?_concat] at blank
  change (!Path.isBlank last) = false at blank
  rw [Bool.not_eq_false', Path.isBlank_iff] at blank
  rw [steps, cut]
  split
  · exact ⟨_, rfl⟩
  rename_i unslashed
  rcases blank with rfl | rfl
  · rcases Path.text_of_cut cut with ⟨-, empty⟩ | ⟨front, text⟩
    · exact absurd (String.toList_inj.mp empty) some
    · exact absurd (by rw [text]; exact List.getLast?_concat) unslashed
  · exact ⟨before.filter (· ≠ ""), by rw [List.filter_append]; rfl⟩

theorem exists_resolve {path : Path} {node : Node} (there : store.find path = .ok node) :
    pathFault? path = none ∧
      ∃ location, store.walkLinks false maxLinks (origin store.workingDirectory path) (steps path) =
        .ok location ∧ store.node? location = some node := by
  rw [find, resolve, reach, walkFrom] at there
  cases fault : pathFault? path with
  | some cause =>
    simp only [fault] at there
    cases there
  | none =>
    simp only [fault] at there
    split at there
    · cases there
    · rename_i location success
      refine ⟨rfl, location, success, ?_⟩
      split at there
      · cases there
      · rename_i found
        cases there
        exact found

theorem endsInName_of_find {path : Path} {node : Node} (there : store.find path = .ok node)
    (plain : node ≠ .directory) : path.endsInName = true := by
  obtain ⟨fine, location, success, found⟩ := exists_resolve there
  have some : path.text ≠ "" := by
    intro empty
    rw [pathFault?, if_pos empty] at fine
    cases fine
  refine Decidable.byContradiction fun named => ?_
  obtain ⟨names, ends⟩ := steps_of_blank_end some (Bool.eq_false_iff.mpr named)
  rw [ends] at success
  rw [endsInDirectory_walkLinks maxLinks _ _ _ success] at found
  exact plain (Option.some.inj found).symm

end EvidencePages.FileStore

import EvidencePages.Proofs.Siblings
import EvidencePages.Proofs.Store.Walk

/-!
# What a directory lists

A walk to a name goes through the directory that holds it, whichever links lead
there, so that directory can be read and the name is one of its list. A dot
before the last name changes nothing, and so the name is found under its
directory as it is found at the path itself.
-/

set_option autoImplicit false

namespace EvidencePages.FileStore

variable {store : FileStore} {vacant : Bool}

/-! ## Dots on the way -/

/-- No dot before the last name changes where a walk leads. -/
def IgnoresDots (follow : Location → List String → Except IoError Location) : Prop :=
  ∀ here names name, follow here (names ++ [name]) = follow here (names.filter (· ≠ ".") ++ [name])

theorem walk_of_not_directory {follow : Location → List String → Except IoError Location}
    {here : Location} (other : store.node? here ≠ some .directory) {names : List String}
    (more : names ≠ []) : store.walk vacant follow here names = .error .notADirectory := by
  cases names with
  | nil => exact absurd rfl more
  | cons name rest =>
    rw [walk]
    split
    · rename_i there
      exact absurd there other
    · rfl

theorem IgnoresDots.walk {follow : Location → List String → Except IoError Location}
    (followed : IgnoresDots follow) : IgnoresDots (store.walk vacant follow) := by
  intro here names last
  induction names generalizing here with
  | nil => rfl
  | cons name rest ih =>
    have more : ∀ names : List String, names ++ [last] ≠ [] :=
      fun names => List.append_ne_nil_of_right_ne_nil _ (List.cons_ne_nil _ _)
    by_cases there : store.node? here = some .directory
    swap
    · rw [walk_of_not_directory there (more _), walk_of_not_directory there (more _)]
    by_cases dot : name = "."
    · subst dot
      rw [List.filter_cons_of_neg (by simp), ← ih, List.cons_append, FileStore.walk]
      simp only [there, if_true]
    · rw [List.filter_cons_of_pos (by simp [dot]), List.cons_append, List.cons_append,
        FileStore.walk, FileStore.walk]
      have last : ∀ names : List String, (names ++ [last]).isEmpty = false := by
        intro names
        cases names <;> rfl
      simp only [there, dot, if_false, last, Bool.and_false]
      split
      · exact ih _
      split
      · rfl
      split
      · rfl
      · rename_i target found
        have dots : (steps target ++ rest.filter (· ≠ ".")).filter (· ≠ ".") =
            (steps target ++ rest).filter (· ≠ ".") := by
          rw [List.filter_append, List.filter_append, List.filter_filter]
          simp only [Bool.and_self]
        rw [← List.append_assoc, ← List.append_assoc, followed, followed _ (_ ++ _), dots]
      · exact ih _

theorem ignoresDots_walkLinks (links : Nat) : IgnoresDots (store.walkLinks vacant links) := by
  induction links with
  | zero => exact IgnoresDots.walk fun _ _ _ => rfl
  | succ links ih => exact IgnoresDots.walk ih

/-! ## The directory of the last name -/

/-- A walk to a name that is there goes through the directory that holds it. -/
def EntersDirectory (store : FileStore)
    (follow : Location → List String → Except IoError Location) : Prop :=
  ∀ here names name location, name ≠ "." → name ≠ ".." →
    follow here (names ++ [name]) = .ok location →
    ∃ dir, follow here names = .ok dir ∧ follow here (names ++ ["."]) = .ok dir ∧
      store.node? dir = some .directory ∧ (store.node? (name :: dir)).isSome = true ∧
      name.utf8ByteSize ≤ maxNameSize

theorem EntersDirectory.walk {follow : Location → List String → Except IoError Location}
    (followed : store.EntersDirectory follow) :
    store.EntersDirectory (store.walk false follow) := by
  intro here names last location dot parent success
  -- On the names before the last; a link is left to the walk that goes on along its target.
  induction names generalizing here with
  | nil =>
    rw [List.nil_append, FileStore.walk] at success
    split at success
    · rename_i there
      rw [if_neg dot, if_neg parent] at success
      split at success
      · cases success
      rename_i short
      refine ⟨here, rfl, ?_, there, ?_, Nat.le_of_not_lt short⟩
      · rw [List.nil_append, FileStore.walk]
        simp only [there, if_true]
        rfl
      · split at success
        · cases success
        all_goals rename_i found; rw [found]; rfl
    · cases success
  | cons name rest ih =>
    rw [List.cons_append, FileStore.walk] at success
    rw [List.cons_append, FileStore.walk, FileStore.walk]
    split at success
    · split at success
      · rename_i same
        simp only [if_pos same]
        exact ih _ success
      rename_i other
      simp only [if_neg other]
      split at success
      · rename_i same
        simp only [if_pos same]
        exact ih _ success
      rename_i other'
      simp only [if_neg other']
      split at success
      · cases success
      rename_i short
      simp only [if_neg short]
      split at success
      · cases success
      · rw [← List.append_assoc] at success ⊢
        exact followed _ _ _ _ dot parent success
      · exact ih _ success
    · cases success

theorem entersDirectory_walkLinks (links : Nat) :
    store.EntersDirectory (store.walkLinks false links) := by
  induction links with
  | zero => exact EntersDirectory.walk fun _ _ _ _ _ _ failed => by cases failed
  | succ links ih => exact EntersDirectory.walk ih

/-! ## Names joined to a directory -/

variable {dir path : Path} {name last : String} {before : List String} {node : Node}

theorem steps_of_cut (cut : Text.cut '/' path.text = before ++ [last]) (told : last ≠ "") :
    steps path = before.filter (· ≠ "") ++ [last] := by
  have unslashed : path.text.toList.getLast? ≠ some '/' := by
    have apart : '/' ∉ last.toList :=
      Text.not_mem_of_mem_cut (cut ▸ List.mem_append_right _ List.mem_cons_self)
    have more : last.toList ≠ [] := fun empty => told (String.toList_eq_nil_iff.mp empty)
    intro slashed
    refine apart (List.mem_of_getLast? ?_)
    rcases Path.text_of_cut cut with ⟨-, text⟩ | ⟨front, text⟩
    · exact text ▸ slashed
    · rw [text, List.getLast?_append_of_ne_nil _ (List.cons_ne_nil _ _)] at slashed
      rw [List.getLast?_cons_of_ne_nil more] at slashed
      exact slashed
  rw [steps, if_neg unslashed, cut, List.filter_append, List.filter_singleton, decide_eq_true told]
  rfl

theorem steps_join (nonempty : dir.text ≠ "") (apart : '/' ∉ name.toList) (told : name ≠ "") :
    steps (dir.join name) = (Text.cut '/' dir.text).filter (· ≠ "") ++ [name] := by
  obtain ⟨first, front, same, cut⟩ := Path.exists_cut_join nonempty
  rw [← same, ← steps_of_cut _ told]
  exact cut name apart

theorem origin_join (nonempty : dir.text ≠ "") (here : Location) (name : String) :
    origin here (dir.join name) = origin here dir := by
  rw [origin, origin, Path.isAbsolute_join nonempty]

theorem pathFault?_eq_none_iff :
    pathFault? path = none ↔
      path.text ≠ "" ∧ '\x00' ∉ path.text.toList ∧ path.text.utf8ByteSize ≤ maxPathSize := by
  rw [pathFault?]
  split
  · rename_i empty
    exact iff_of_false (fun none => by cases none) fun ok => ok.1 empty
  · rename_i some
    split
    · rename_i inside
      exact iff_of_false (fun none => by cases none) fun ok => ok.2.1 inside
    · rename_i apart
      split
      · rename_i long
        exact iff_of_false (fun none => by cases none) fun ok => Nat.not_lt_of_le ok.2.2 long
      · rename_i short
        exact iff_of_true rfl ⟨some, apart, Nat.le_of_not_lt short⟩

theorem pathFault?_of_sublist {other : Path} (fine : pathFault? path = none)
    (some : other.text ≠ "") (kept : other.text.toList.Sublist path.text.toList) :
    pathFault? other = none := by
  rw [pathFault?_eq_none_iff] at fine ⊢
  refine ⟨some, fun inside => fine.2.1 (kept.subset inside), Nat.le_trans ?_ fine.2.2⟩
  rw [← String.ofList_toList (s := other.text), ← String.ofList_toList (s := path.text),
    String.utf8ByteSize_ofList, String.utf8ByteSize_ofList]
  exact String.utf8Len_le_of_sublist kept

theorem find_of_walk {location : Location} (fine : pathFault? path = none)
    (success : store.walkLinks false maxLinks (origin store.workingDirectory path) (steps path) =
      .ok location) (found : store.node? location = some node) : store.find path = .ok node := by
  rw [find, resolve, reach, walkFrom, fine]
  dsimp only
  rw [success]
  dsimp only
  rw [found]

theorem isFile_iff : store.isFile path = true ↔ ∃ file, store.find path = .ok (.regular file) := by
  rw [isFile]
  constructor
  · intro file
    split at file
    · rename_i id there
      exact ⟨id, there⟩
    · cases file
  · rintro ⟨file, there⟩
    rw [there]

theorem mem_names_of_find (nonempty : dir.text ≠ "") (apart : '/' ∉ name.toList)
    (solid : Path.isBlank name = false) (parent : name ≠ "..")
    (there : store.find (dir.join name) = .ok node) {listed : List String}
    (lists : store.names dir = .ok listed) : name ∈ listed := by
  obtain ⟨told, dot⟩ := Path.ne_of_solid solid
  obtain ⟨fine, location, success, -⟩ := exists_resolve there
  rw [steps_join nonempty apart told, origin_join nonempty] at success
  obtain ⟨holder, plain, dotted, directory, held, -⟩ :=
    entersDirectory_walkLinks _ _ _ _ _ dot parent success
  have shorter : pathFault? dir = none :=
    pathFault?_of_sublist fine nonempty (Path.sublist_join nonempty name)
  have resolved : store.resolve dir = .ok holder := by
    rw [resolve, reach, walkFrom, shorter]
    dsimp only
    rw [steps]
    split
    · exact dotted
    · exact plain
  rw [names, resolved] at lists
  dsimp only at lists
  rw [directory] at lists
  dsimp only at lists
  split at lists
  · cases lists
  cases lists
  rw [node?, if_neg (List.cons_ne_nil _ _)] at held
  obtain ⟨entry, found⟩ := Option.isSome_iff_exists.mp held
  obtain ⟨front, back, entries, -⟩ := List.lookup_eq_some_iff.mp found
  refine List.mem_filterMap.mpr ⟨(name :: holder, entry), ?_, if_pos rfl⟩
  rw [entries]
  exact List.mem_append_right _ List.mem_cons_self

theorem pathFault?_beside (fine : pathFault? path = none)
    (cut : Text.cut '/' path.text = before ++ [last]) (solid : Path.isBlank last = false)
    (short : 2 + last.utf8ByteSize ≤ maxPathSize) : pathFault? (path.beside last) = none := by
  have located := Path.lastComponent_of_cut cut solid
  by_cases bare : before = []
  · subst bare
    have text : path.text.toList = last.toList := by
      rw [Path.text_eq_joined, cut]
      rfl
    have own : (path.beside last).text = "./" ++ last := by
      rw [Path.beside, Path.folder_eq located]
      rfl
    have other : '\x00' ∉ "./".toList := by decide
    rw [pathFault?_eq_none_iff] at fine ⊢
    rw [own, String.toList_append, String.utf8ByteSize_append]
    refine ⟨fun empty => ?_, fun inside => ?_, short⟩
    · exact absurd (congrArg String.toList empty) (by simp)
    · rcases List.mem_append.mp inside with early | late
      · exact other early
      · exact fine.2.1 (text ▸ late)
  · have kept := Path.sublist_beside located bare
    refine pathFault?_of_sublist fine (fun empty => ?_) kept
    have more := Path.toList_join path.text_folder_ne last
    rw [← Path.beside, empty] at more
    have none := (List.append_eq_nil_iff.mp more.symm).2
    exact (Path.ne_of_solid solid).1 (String.toList_eq_nil_iff.mp none)

theorem find_beside (cut : Text.cut '/' path.text = before ++ [last])
    (solid : Path.isBlank last = false) (parent : last ≠ "..")
    (there : store.find path = .ok node) : store.find (path.beside last) = .ok node := by
  obtain ⟨told, dot⟩ := Path.ne_of_solid solid
  have located := Path.lastComponent_of_cut cut solid
  have apart : '/' ∉ last.toList :=
    Text.not_mem_of_mem_cut (cut ▸ List.mem_append_right _ List.mem_cons_self)
  have beside := path.text_folder_ne
  obtain ⟨fine, location, success, found⟩ := exists_resolve there
  rw [steps_of_cut cut told] at success
  obtain ⟨-, -, -, -, -, short⟩ := entersDirectory_walkLinks _ _ _ _ _ dot parent success
  refine find_of_walk ?_ ?_ found
  · exact pathFault?_beside fine cut solid (Nat.le_trans (Nat.add_le_add_left short 2) (by decide))
  · have dots : ((Text.cut '/' path.folder.text).filter (· ≠ "")).filter (· ≠ ".") =
        (before.filter (· ≠ "")).filter (· ≠ ".") := by
      have both : ∀ components : List String,
          (components.filter (· ≠ "")).filter (· ≠ ".") =
            components.filter (fun c => !Path.isBlank c) := by
        intro components
        rw [List.filter_filter]
        refine List.filter_congr fun c _ => ?_
        simp [Path.isBlank, Bool.and_comm]
      rw [both, both, Path.filter_cut_folder located]
    have start : origin store.workingDirectory (path.beside last) =
        origin store.workingDirectory path := by
      rw [Path.beside, origin_join beside, origin, origin, Path.isAbsolute_folder located]
    rw [ignoresDots_walkLinks] at success
    rw [start, Path.beside, steps_join beside apart told, ignoresDots_walkLinks, dots, success]

end EvidencePages.FileStore

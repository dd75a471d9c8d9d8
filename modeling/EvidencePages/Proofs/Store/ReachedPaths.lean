import Mathlib.Data.List.Induction
import EvidencePages.Directory.DirectoryImage
import EvidencePages.Proofs.Store.Changes

/-!
# Paths below a directory

What lies below a directory of a tree is met name by name, through directories
that the host lists under the path so far. A path that is not too long leads to
the entry it was met at, so no two of them are alike.
-/

set_option autoImplicit false

namespace EvidencePages

/-- A name that an entry can have. -/
structure IsName (name : String) : Prop where
  apart : '/' ∉ name.toList
  solid : Path.isBlank name = false
  parent : name ≠ ".."
  sound : '\x00' ∉ name.toList
  short : name.utf8ByteSize ≤ FileStore.maxNameSize

instance (name : String) : Decidable (IsName name) :=
  decidable_of_iff ('/' ∉ name.toList ∧ Path.isBlank name = false ∧ name ≠ ".." ∧
      '\x00' ∉ name.toList ∧ name.utf8ByteSize ≤ FileStore.maxNameSize)
    ⟨fun ⟨apart, solid, parent, sound, short⟩ => ⟨apart, solid, parent, sound, short⟩,
      fun legal => ⟨legal.apart, legal.solid, legal.parent, legal.sound, legal.short⟩⟩

theorem IsName.ne {name : String} (legal : IsName name) : name ≠ "" ∧ name ≠ "." :=
  Path.ne_of_solid legal.solid

namespace Path

variable {dir root : Path} {name : String}

theorem filter_cut_join (nonempty : dir.text ≠ "") (legal : IsName name) :
    (Text.cut '/' (dir.join name).text).filter (· ≠ "") =
      (Text.cut '/' dir.text).filter (· ≠ "") ++ [name] := by
  obtain ⟨first, front, same, cut⟩ := exists_cut_join nonempty
  rw [cut name legal.apart, ← List.cons_append, List.filter_append, same,
    List.filter_cons_of_pos (by simpa using legal.ne.1), List.filter_nil]

end Path

namespace DirectoryImage

variable {root : Path} {names : List String} {name : String}

theorem pathBelow_concat (root : Path) (names : List String) (name : String) :
    pathBelow root (names ++ [name]) = (pathBelow root names).join name := by
  rw [pathBelow, List.foldl_append]
  rfl

theorem text_pathBelow_ne (nonempty : root.text ≠ "") (names : List String) :
    (pathBelow root names).text ≠ "" := by
  induction names using List.reverseRecOn with
  | nil => exact nonempty
  | append_singleton names name ih =>
    rw [pathBelow_concat]
    exact Path.text_join_ne ih name

theorem filter_cut_pathBelow (nonempty : root.text ≠ "") (legal : ∀ name ∈ names, IsName name) :
    (Text.cut '/' (pathBelow root names).text).filter (· ≠ "") =
      (Text.cut '/' root.text).filter (· ≠ "") ++ names := by
  induction names using List.reverseRecOn with
  | nil => exact (List.append_nil _).symm
  | append_singleton names name ih =>
    rw [pathBelow_concat, Path.filter_cut_join (text_pathBelow_ne nonempty names)
      (legal name (List.mem_append_right _ List.mem_cons_self)),
      ih fun other listed => legal other (List.mem_append_left _ listed), List.append_assoc]

theorem pathBelow_injective (nonempty : root.text ≠ "") {others : List String}
    (legal : ∀ name ∈ names, IsName name) (legal' : ∀ name ∈ others, IsName name)
    (same : pathBelow root names = pathBelow root others) : names = others := by
  have cut := filter_cut_pathBelow nonempty legal
  rw [same, filter_cut_pathBelow nonempty legal'] at cut
  exact (List.append_cancel_left cut).symm

theorem canRead_iff {store : FileStore} {top : Location} :
    canRead store root top names = true ↔ FileStore.pathFault? (pathBelow root names) = none ∧
      ∀ front, front <+: names → store.refusal (.directory (front.reverse ++ top)) = none := by
  rw [canRead, Bool.and_eq_true_iff, Option.isNone_iff_eq_none, List.all_eq_true]
  refine and_congr_right fun _ => ⟨fun granted front before => ?_, fun granted depth _ => ?_⟩
  · have short := Nat.lt_succ_of_le before.length_le
    have own := granted front.length (List.mem_range.mpr short)
    rwa [← List.prefix_iff_eq_take.mp before, Option.isNone_iff_eq_none] at own
  · rw [Option.isNone_iff_eq_none]
    exact granted _ (List.take_prefix depth names)

theorem canRead_dropLast {store : FileStore} {top : Location} (nonempty : root.text ≠ "")
    (readable : canRead store root top names = true) :
    canRead store root top names.dropLast = true := by
  rw [canRead_iff] at readable ⊢
  obtain ⟨fine, granted⟩ := readable
  refine ⟨?_, fun front before => granted front (before.trans (List.dropLast_prefix names))⟩
  cases names using List.reverseRecOn with
  | nil => exact fine
  | append_singleton names name =>
    rw [pathBelow_concat] at fine
    rw [List.dropLast_concat]
    exact FileStore.pathFault?_of_sublist fine (text_pathBelow_ne nonempty names)
      (Path.sublist_join (text_pathBelow_ne nonempty names) name)

theorem below?_eq_some {top entry : Location} :
    below? top entry = some names ↔ names ≠ [] ∧ entry = names.reverse ++ top := by
  rw [below?]
  split
  · rename_i inside
    obtain ⟨suffix, other⟩ := Bool.and_eq_true_iff.mp inside
    obtain ⟨front, rfl⟩ := List.isSuffixOf_iff_suffix.mp suffix
    have other : front ++ top ≠ top := of_decide_eq_true other
    rw [List.length_append, Nat.add_sub_cancel, List.take_left, Option.some.injEq]
    constructor
    · rintro rfl
      refine ⟨?_, by rw [List.reverse_reverse]⟩
      intro none
      rw [List.reverse_eq_nil_iff.mp none] at other
      exact other rfl
    · rintro ⟨-, same⟩
      rw [List.append_cancel_right same, List.reverse_reverse]
  · rename_i outside
    refine iff_of_false (fun none => by cases none) ?_
    rintro ⟨some, rfl⟩
    apply outside
    rw [Bool.and_eq_true_iff]
    refine ⟨List.isSuffixOf_iff_suffix.mpr (List.suffix_append _ _), decide_eq_true ?_⟩
    intro same
    have none : names.reverse = [] := List.append_left_eq_self.mp same
    exact some (List.reverse_eq_nil_iff.mp none)

end DirectoryImage

namespace FileStore

variable {store : FileStore}

def IsNamed (store : FileStore) : Prop :=
  ∀ location ∈ store.entries.map Prod.fst, ∀ name ∈ location.head?, IsName name

instance (store : FileStore) : Decidable store.IsNamed :=
  inferInstanceAs (Decidable (∀ location ∈ store.entries.map Prod.fst,
    ∀ name ∈ location.head?, IsName name))

theorem IsNamed.isName (named : store.IsNamed) {name : String} {here : Location}
    (there : (store.node? (name :: here)).isSome = true) : IsName name := by
  obtain ⟨node, held⟩ := Option.isSome_iff_exists.mp there
  exact named _ ((mem_of_node? held).resolve_left (List.cons_ne_nil _ _)) name rfl

/-- What lies below a directory, with its path: the directory itself, and each entry of a directory
that is met and that the host lists. -/
inductive Reaches (store : FileStore) (root : Path) (top : Location) : Path → Location → Prop
  | root : Reaches store root top root top
  | entry {dir : Path} {here : Location} {name : String}
    (reached : Reaches store root top dir here)
    (directory : store.node? here = some .directory) (readable : pathFault? dir = none)
    (granted : store.refusal (.directory here) = none)
    (there : (store.node? (name :: here)).isSome = true) :
    Reaches store root top (dir.join name) (name :: here)

/-- A walk that comes to a directory goes on to an entry of it that is no link. -/
def GoesOn (store : FileStore) (follow : Location → List String → Except IoError Location) : Prop :=
  ∀ here names dir name node, IsName name → store.node? dir = some .directory →
    store.node? (name :: dir) = some node → (∀ target, node ≠ .link target) →
    follow here names = .ok dir → follow here (names ++ [name]) = .ok (name :: dir)

theorem GoesOn.walk {vacant : Bool} {follow : Location → List String → Except IoError Location}
    (followed : store.GoesOn follow) : store.GoesOn (store.walk vacant follow) := by
  intro here names dir last node legal directory held plain success
  -- On the names that lead to the directory; only then is the entry looked up.
  induction names generalizing here with
  | nil =>
    cases success
    rw [List.nil_append, FileStore.walk, directory]
    dsimp only
    rw [if_neg legal.ne.2, if_neg legal.parent, if_neg (Nat.not_lt_of_le legal.short), held]
    cases node with
    | link target => exact absurd rfl (plain target)
    | regular file => rfl
    | directory => rfl
    | device kind => rfl
  | cons name rest ih =>
    rw [FileStore.walk] at success
    rw [List.cons_append, FileStore.walk]
    split at success
    · split at success
      · rename_i dot
        rw [if_pos dot]
        exact ih here success
      rename_i other
      rw [if_neg other]
      split at success
      · rename_i parent
        rw [if_pos parent]
        exact ih here.tail success
      rename_i other'
      rw [if_neg other']
      split at success
      · cases success
      rename_i short
      rw [if_neg short]
      split at success
      · rename_i free
        split at success
        · cases success
          rw [free] at directory
          cases directory
        · cases success
      · rw [← List.append_assoc]
        exact followed _ _ _ _ _ legal directory held plain success
      · exact ih (name :: here) success
    · cases success

theorem goesOn_walkLinks (vacant : Bool) (links : Nat) :
    store.GoesOn (store.walkLinks vacant links) := by
  induction links with
  | zero => exact GoesOn.walk fun _ _ _ _ _ _ _ _ _ failed => by cases failed
  | succ links ih => exact GoesOn.walk ih

theorem fine_of_resolve {path : Path} {place : Location}
    (resolved : store.resolve path = .ok place) :
    pathFault? path = none := by
  rw [resolve, reach, walkFrom] at resolved
  cases fault : pathFault? path with
  | none => rfl
  | some cause =>
    rw [fault] at resolved
    cases resolved

theorem resolve_join {dir : Path} {here : Location} {name : String} {node : Node}
    (legal : IsName name) (resolved : store.resolve dir = .ok here)
    (directory : store.node? here = some .directory)
    (held : store.node? (name :: here) = some node) (plain : ∀ target, node ≠ .link target)
    (fine : pathFault? (dir.join name) = none) :
    store.resolve (dir.join name) = .ok (name :: here) := by
  have shorter := fine_of_resolve resolved
  have nonempty := (pathFault?_eq_none_iff.mp shorter).1
  rw [resolve, reach, walkFrom, shorter] at resolved
  have behind := goesOn_walkLinks _ _ _ _ _ _ _ legal directory held plain resolved
  have dots : (steps dir).filter (· ≠ ".") =
      ((Text.cut '/' dir.text).filter (· ≠ "")).filter (· ≠ ".") := by
    rw [steps]
    split
    · rw [List.filter_append, List.filter_cons_of_neg (by decide), List.filter_nil,
        List.append_nil]
    · rfl
  rw [ignoresDots_walkLinks, dots, ← ignoresDots_walkLinks,
    ← steps_join nonempty legal.apart legal.ne.1, ← origin_join nonempty _ name] at behind
  rw [resolve, reach, walkFrom, fine]
  exact behind

section Reached

variable {root : Path} {top : Location}

/-- A path that is reached and can be walked leads where it was reached, unless there is a link. -/
theorem Reaches.resolve (named : store.IsNamed) (resolved : store.resolve root = .ok top)
    {path : Path} {place : Location} {node : Node} (reached : Reaches store root top path place)
    (fine : pathFault? path = none) (held : store.node? place = some node)
    (plain : ∀ target, node ≠ .link target) : store.resolve path = .ok place := by
  induction reached generalizing node with
  | root => exact resolved
  | @entry dir here name reached inside readable granted there ih =>
    have resolved := ih readable inside fun target same => by cases same
    exact resolve_join (named.isName there) resolved inside held plain fine

theorem Reaches.sound (named : store.IsNamed) {path : Path} {place : Location}
    (reached : Reaches store root top path place)
    (fine : root.text ≠ "" ∧ '\x00' ∉ root.text.toList) :
    path.text ≠ "" ∧ '\x00' ∉ path.text.toList := by
  induction reached with
  | root => exact fine
  | @entry dir here name reached directory readable granted there ih =>
    refine ⟨Path.text_join_ne ih.1 name, fun inside => ?_⟩
    rw [Path.toList_join ih.1] at inside
    rcases List.mem_append.mp inside with early | late
    · split at early
      · exact ih.2 early
      · rcases List.mem_append.mp early with early | slash
        · exact ih.2 early
        · cases List.mem_singleton.mp slash
    · exact (named.isName there).sound late

theorem Reaches.exists_names (named : store.IsNamed) {path : Path} {place : Location}
    (reached : Reaches store root top path place) :
    ∃ names, path = DirectoryImage.pathBelow root names ∧ place = names.reverse ++ top ∧
      (∀ name ∈ names, IsName name) ∧
      (names ≠ [] → DirectoryImage.canRead store root top names.dropLast = true) := by
  induction reached with
  | root => exact ⟨[], rfl, rfl, fun name listed => absurd listed List.not_mem_nil, by simp⟩
  | @entry dir here name reached inside readable granted there ih =>
    obtain ⟨names, rfl, rfl, legal, above⟩ := ih
    refine ⟨names ++ [name], ?_, ?_, ?_, fun _ => ?_⟩
    · rw [DirectoryImage.pathBelow_concat]
    · rw [List.reverse_append]
      rfl
    · intro other own
      rcases List.mem_append.mp own with early | late
      · exact legal other early
      · cases List.mem_singleton.mp late
        exact named.isName there
    · rw [List.dropLast_concat, DirectoryImage.canRead_iff]
      refine ⟨readable, fun front before => ?_⟩
      cases names using List.reverseRecOn with
      | nil =>
        rw [List.prefix_nil.mp before]
        exact granted
      | append_singleton names last =>
        rcases List.prefix_concat_iff.mp before with rfl | earlier
        · exact granted
        · have above := above (List.append_ne_nil_of_right_ne_nil _ (List.cons_ne_nil _ _))
          rw [List.dropLast_concat] at above
          exact (DirectoryImage.canRead_iff.mp above).2 front earlier

/-- An entry is reached if the directory it lies in can be read under its path. -/
theorem reaches_pathBelow (tree : store.IsTree) (nonempty : root.text ≠ "")
    (names : List String) (there : (store.node? (names.reverse ++ top)).isSome = true)
    (readable : names ≠ [] → DirectoryImage.canRead store root top names.dropLast = true) :
    Reaches store root top (DirectoryImage.pathBelow root names) (names.reverse ++ top) := by
  induction names using List.reverseRecOn with
  | nil => exact .root
  | append_singleton names name ih =>
    have readable := readable (List.append_ne_nil_of_right_ne_nil _ (List.cons_ne_nil _ _))
    rw [List.dropLast_concat] at readable
    rw [List.reverse_append, List.reverse_singleton, List.singleton_append, List.cons_append]
      at there ⊢
    obtain ⟨node, held⟩ := Option.isSome_iff_exists.mp there
    have directory : store.node? (names.reverse ++ top) = some .directory := tree.node?_tail held
    have reached := ih (by rw [directory]; rfl) fun _ =>
      DirectoryImage.canRead_dropLast nonempty readable
    rw [DirectoryImage.pathBelow_concat]
    obtain ⟨fine, granted⟩ := DirectoryImage.canRead_iff.mp readable
    exact .entry reached directory fine (granted names List.prefix_rfl) there

end Reached

end FileStore

end EvidencePages

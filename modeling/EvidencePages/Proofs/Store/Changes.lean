import Mathlib.Data.List.Nodup
import EvidencePages.Proofs.Lookup
import EvidencePages.Proofs.Store.Listing
import EvidencePages.Store.Changes

/-!
# Stores made by changes

Changes put an entry only into a directory and only where there was none, and
take no directory away. So the entries make a tree: a directory lists every name
once, and the step up from one leads to a directory again.
-/

set_option autoImplicit false

namespace EvidencePages.FileStore

variable {store made : FileStore} {location : Location} {node : Node} {vacant : Bool}

/-- Every location has one entry at most, every entry lies in a directory, and relative paths start
from one. -/
structure IsTree (store : FileStore) : Prop where
  distinct : (store.entries.map Prod.fst).Nodup
  rooted : ∀ location ∈ store.entries.map Prod.fst, store.node? location.tail = some .directory
  home : store.node? store.workingDirectory = some .directory

theorem mem_of_node? (there : store.node? location = some node) :
    location = [] ∨ location ∈ store.entries.map Prod.fst := by
  rw [node?] at there
  split at there
  · rename_i root
    exact .inl root
  · obtain ⟨front, back, entries, -⟩ := List.lookup_eq_some_iff.mp there
    rw [entries, List.map_append]
    exact .inr (List.mem_append_right _ List.mem_cons_self)

theorem not_mem_of_node? (free : store.node? location = none) :
    location ∉ store.entries.map Prod.fst := by
  rw [node?] at free
  split at free
  · cases free
  · intro listed
    obtain ⟨entry, there, rfl⟩ := List.mem_map.mp listed
    have other := List.lookup_eq_none_iff.mp free entry there
    simp at other

namespace IsTree

theorem node?_tail (tree : store.IsTree) (there : store.node? location = some node) :
    store.node? location.tail = some .directory := by
  rcases mem_of_node? there with rfl | listed
  · rfl
  · exact tree.rooted location listed

/-! ## Where walks lead in a tree -/

def Placed (store : FileStore) (location : Location) : Prop :=
  (store.node? location).isSome = true ∨
    ∃ name parent, location = name :: parent ∧ store.node? parent = some .directory

theorem placed_origin {here : Location} (placed : Placed store here) (path : Path) :
    Placed store (origin here path) := by
  rw [origin]
  split
  · exact .inl rfl
  · exact placed

def StaysPlaced (store : FileStore)
    (follow : Location → List String → Except IoError Location) : Prop :=
  ∀ here names location, Placed store here → follow here names = .ok location →
    Placed store location

theorem staysPlaced_walk (tree : store.IsTree)
    {follow : Location → List String → Except IoError Location}
    (followed : StaysPlaced store follow) : StaysPlaced store (store.walk vacant follow) := by
  intro here names location placed success
  induction names generalizing here with
  | nil =>
    cases success
    exact placed
  | cons name rest ih =>
    obtain ⟨there, step⟩ := stepped_of_walk success
    cases step with
    | stays dot success => exact ih here placed success
    | climbs parent success =>
      exact ih here.tail (.inl (by rw [tree.node?_tail there]; rfl)) success
    | free last end_eq => exact .inr ⟨name, here, end_eq, there⟩
    | linked target success => exact followed _ _ _ (placed_origin placed target) success
    | enters node found success => exact ih (name :: here) (.inl (by rw [found]; rfl)) success

theorem staysPlaced_walkLinks (tree : store.IsTree) (links : Nat) :
    StaysPlaced store (store.walkLinks vacant links) := by
  induction links with
  | zero => exact tree.staysPlaced_walk fun _ _ _ _ failed => by cases failed
  | succ links ih => exact tree.staysPlaced_walk ih

theorem exists_parent (tree : store.IsTree) {path : Path}
    (success : store.reach true path = .ok location) (free : store.node? location = none) :
    ∃ name parent, location = name :: parent ∧ store.node? parent = some .directory := by
  rw [reach, walkFrom] at success
  split at success
  · cases success
  have start : Placed store (origin store.workingDirectory path) :=
    placed_origin (.inl (by rw [tree.home]; rfl)) path
  rcases tree.staysPlaced_walkLinks maxLinks _ _ _ start success with there | parent
  · rw [free] at there
    cases there
  · exact parent

def EndsAbove (store : FileStore)
    (follow : Location → List String → Except IoError Location) : Prop :=
  ∀ here names location, follow here (names ++ [".."]) = .ok location →
    store.node? location = some .directory

theorem endsAbove_walk (tree : store.IsTree)
    {follow : Location → List String → Except IoError Location}
    (followed : EndsAbove store follow) : EndsAbove store (store.walk vacant follow) := by
  refine walk_ends_at (fun here location success => ?_) followed
  rw [walk] at success
  split at success
  · rename_i there
    rw [if_neg (by decide), if_pos rfl] at success
    cases success
    exact tree.node?_tail there
  · cases success

theorem endsAbove_walkLinks (tree : store.IsTree) (links : Nat) :
    EndsAbove store (store.walkLinks vacant links) := by
  induction links with
  | zero => exact tree.endsAbove_walk fun _ _ _ failed => by cases failed
  | succ links ih => exact tree.endsAbove_walk ih

/-! ## Changes of a tree -/

theorem node?_insert (there : store.node? location = some node) (place : Location) (new : Node) :
    (store.insert place new).node? location = some node := by
  rw [node?] at there ⊢
  split
  · rename_i root
    rw [if_pos root] at there
    exact there
  · rename_i other
    rw [if_neg other] at there
    rw [FileStore.insert, List.lookup_append, there]
    rfl

theorem insert (tree : store.IsTree) {name : String} {parent : Location}
    (free : store.node? (name :: parent) = none) (dir : store.node? parent = some .directory)
    (node : Node) : (store.insert (name :: parent) node).IsTree where
  distinct := by
    rw [FileStore.insert, List.map_append, List.nodup_append]
    refine ⟨tree.distinct, List.nodup_singleton _, ?_⟩
    rintro entry listed _ here rfl
    cases List.mem_singleton.mp here
    exact not_mem_of_node? free listed
  rooted := by
    intro location listed
    rw [FileStore.insert, List.map_append, List.mem_append] at listed
    rcases listed with early | late
    · exact node?_insert (tree.rooted location early) _ _
    · cases List.mem_singleton.mp late
      exact node?_insert dir _ _
  home := node?_insert tree.home _ _

theorem makeDirectories (tree : store.IsTree) {here : Location} {names : List String}
    (success : store.makeDirectories here names = some made) : made.IsTree := by
  induction names generalizing store here with
  | nil =>
    cases success
    exact tree
  | cons name rest ih =>
    rw [FileStore.makeDirectories] at success
    split at success
    · split at success
      · exact ih tree success
      · cases success
    · rename_i missing
      split at success
      · cases success
      · rename_i taken
        have dir : store.node? here = some .directory := by
          by_contra other
          rw [maxLinks, walkLinks, walk] at missing
          split at missing
          · contradiction
          · cases missing
        exact ih (tree.insert (Option.not_isSome_iff_eq_none.mp taken) dir _) success
    · cases success

theorem makeDirectory (tree : store.IsTree) {path : Path}
    (success : store.makeDirectory path = some made) : made.IsTree := by
  rw [FileStore.makeDirectory] at success
  split at success
  · cases success
    exact tree
  split at success
  · cases success
  rename_i through
  split at success
  · cases success
    exact tree.makeDirectories through
  · cases success

theorem write (tree : store.IsTree) {path : Path} {bytes : ByteArray}
    (success : store.write path bytes = some made) : made.IsTree := by
  rw [FileStore.write] at success
  split at success
  · cases success
  rename_i place reached
  split at success
  · rename_i free
    cases success
    obtain ⟨name, parent, rfl, dir⟩ := tree.exists_parent reached free
    have inserted := tree.insert free dir (.regular store.contents.size)
    exact ⟨inserted.distinct, inserted.rooted, inserted.home⟩
  · cases success
    exact ⟨tree.distinct, tree.rooted, tree.home⟩
  · cases success
    exact tree
  · cases success

theorem exists_of_place? {path : Path} (success : store.place? path = some location) :
    ∃ name parent, location = name :: parent ∧ store.node? parent = some .directory := by
  rw [place?] at success
  split at success
  · cases success
  split at success
  · cases success
  split at success
  · cases success
  · rename_i name before _ _ _ dir reached
    cases success
    rw [walkFrom] at reached
    split at reached
    · cases reached
    · exact ⟨name, dir, rfl, endsInDirectory_walkLinks maxLinks _ _ _ reached⟩

theorem makeLink (tree : store.IsTree) {path target : Path}
    (success : store.makeLink path target = some made) : made.IsTree := by
  rw [FileStore.makeLink] at success
  split at success
  · cases success
  rename_i place found
  split at success
  · cases success
  · rename_i free
    cases success
    obtain ⟨name, parent, rfl, dir⟩ := exists_of_place? found
    exact tree.insert (Option.not_isSome_iff_eq_none.mp (not_or.mp free).2) dir _

theorem remove (tree : store.IsTree) {path : Path} (success : store.remove path = some made) :
    made.IsTree := by
  rw [FileStore.remove] at success
  split at success
  · cases success
  rename_i place _
  split at success
  · cases success
  · cases success
  · rename_i plain there
    cases success
    -- directories stay, so whatever lies in one still does
    have kept : ∀ dir, store.node? dir = some .directory →
        node? { store with entries := store.entries.filter fun entry => entry.1 ≠ place } dir =
          some .directory := by
      intro dir directory
      have other : dir ≠ place := by
        rintro rfl
        rw [directory] at there
        exact plain (Option.some.inj there.symm)
      rw [node?] at directory ⊢
      split
      · rfl
      · rename_i below
        rw [if_neg below] at directory
        rw [lookup_filter_ne other, directory]
    refine ⟨tree.distinct.sublist (List.filter_sublist.map _), fun location listed => ?_,
      kept _ tree.home⟩
    exact kept _ (tree.rooted location ((List.filter_sublist.map _).subset listed))

end IsTree

/-! ## Stores made by changes -/

/-- What becomes of the blank store by changes. -/
inductive Made : FileStore → Prop
  | blank : Made .blank
  | directory {store made : FileStore} {path : Path} (earlier : Made store)
      (success : store.makeDirectory path = some made) : Made made
  | file {store made : FileStore} {path : Path} {bytes : ByteArray} (earlier : Made store)
      (success : store.write path bytes = some made) : Made made
  | link {store made : FileStore} {path target : Path} (earlier : Made store)
      (success : store.makeLink path target = some made) : Made made
  | removal {store made : FileStore} {path : Path} (earlier : Made store)
      (success : store.remove path = some made) : Made made

theorem isTree_blank : IsTree .blank := ⟨by decide, by decide, rfl⟩

theorem Made.isTree (made : Made store) : store.IsTree := by
  induction made with
  | blank => exact isTree_blank
  | directory _ success ih => exact ih.makeDirectory success
  | file _ success ih => exact ih.write success
  | link _ success ih => exact ih.makeLink success
  | removal _ success ih => exact ih.remove success

/-! ## What a tree lists -/

theorem nameIn_eq_some {dir entry : Location} {name : String} (own : nameIn dir entry = some name) :
    entry = name :: dir := by
  cases entry with
  | nil => cases own
  | cons first parent =>
    rw [nameIn] at own
    split at own
    · rename_i same
      cases own
      rw [same]
    · cases own

theorem IsTree.nodup_names (tree : store.IsTree) {dir : Path} {listed : List String}
    (success : store.names dir = .ok listed) : listed.Nodup := by
  rw [names] at success
  split at success
  · cases success
  rename_i location _
  split at success
  · split at success
    · cases success
    cases success
    change (store.entries.filterMap (nameIn location ∘ Prod.fst)).Nodup
    rw [← List.filterMap_map]
    refine List.Nodup.filterMap (fun entry other name own same => ?_) tree.distinct
    rw [nameIn_eq_some own, nameIn_eq_some same]
  · cases success

theorem IsTree.isFile_above (tree : store.IsTree) {path : Path} {before : List String}
    (cut : Text.cut '/' path.text = before ++ [".."]) : store.isFile path = false := by
  refine Bool.eq_false_iff.mpr fun file => ?_
  obtain ⟨id, there⟩ := isFile_iff.mp file
  obtain ⟨-, location, success, found⟩ := exists_resolve there
  rw [steps_of_cut cut (by decide)] at success
  rw [tree.endsAbove_walkLinks maxLinks _ _ _ success] at found
  cases found

end EvidencePages.FileStore

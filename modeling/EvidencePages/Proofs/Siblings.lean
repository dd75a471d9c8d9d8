import Mathlib.Data.String.Basic
import EvidencePages.Proofs.Path

/-!
# Paths of one directory

The files beside a path are named by joining their names to its directory. Such
paths are alike but for the last component, so they are ordered as their names
are, and joining the path's own name gives back the path but for components
that say nothing.
-/

set_option autoImplicit false

namespace EvidencePages

namespace Path

variable {dir path : Path} {before : List String} {name last : String}

/-- The directory of a path as it is read: `.` for that of a bare name. -/
def folder (path : Path) : Path :=
  if path.directory.text = "" then ⟨"."⟩ else path.directory

def beside (path : Path) (name : String) : Path := path.folder.join name

theorem text_folder_ne (path : Path) : path.folder.text ≠ "" := by
  rw [folder]
  split
  · exact fun same => absurd same (by decide)
  · assumption

/-! ## Joining a name -/

theorem toList_join (nonempty : dir.text ≠ "") (name : String) :
    (dir.join name).text.toList =
      (if dir.text.toList.getLast? = some '/' then dir.text.toList
        else dir.text.toList ++ ['/']) ++ name.toList := by
  rw [join, if_neg nonempty]
  split
  · exact String.toList_append
  · rw [String.toList_append, String.toList_append]
    rfl

theorem sublist_join (nonempty : dir.text ≠ "") (name : String) :
    dir.text.toList.Sublist (dir.join name).text.toList := by
  rw [toList_join nonempty]
  split
  · exact List.sublist_append_left _ _
  · rw [List.append_assoc]
    exact List.sublist_append_left _ _

theorem text_join_ne (nonempty : dir.text ≠ "") (name : String) : (dir.join name).text ≠ "" := by
  intro empty
  have kept := sublist_join nonempty name
  rw [empty] at kept
  exact nonempty (String.toList_eq_nil_iff.mp (List.eq_nil_of_sublist_nil kept))

theorem join_injective (nonempty : dir.text ≠ "") {a b : String} (same : dir.join a = dir.join b) :
    a = b := by
  have chars := congrArg (fun path : Path => path.text.toList) same
  rw [toList_join nonempty, toList_join nonempty] at chars
  exact String.toList_inj.mp (List.append_cancel_left chars)

theorem isAbsolute_join (nonempty : dir.text ≠ "") (name : String) :
    (dir.join name).isAbsolute = dir.isAbsolute := by
  have first : dir.text.toList ≠ [] := fun empty => nonempty (String.toList_eq_nil_iff.mp empty)
  rw [isAbsolute, isAbsolute, toList_join nonempty]
  cases text : dir.text.toList with
  | nil => exact absurd text first
  | cons c rest => split <;> rfl

theorem exists_cut_join (nonempty : dir.text ≠ "") :
    ∃ first front, (first :: front).filter (· ≠ "") = (Text.cut '/' dir.text).filter (· ≠ "") ∧
      ∀ name : String, '/' ∉ name.toList →
        Text.cut '/' (dir.join name).text = first :: (front ++ [name]) := by
  have own : ∀ name : String, '/' ∉ name.toList →
      (Text.pieces '/' name.toList).map String.ofList = [name] := by
    intro name apart
    rw [Text.pieces_of_not_mem apart, List.map_singleton, String.ofList_toList]
  by_cases slashed : dir.text.toList.getLast? = some '/'
  · -- the piece behind the final slash gives way to the name
    obtain ⟨front, text⟩ := List.getLast?_eq_some_iff.mp slashed
    obtain ⟨first, more, cut⟩ := List.exists_cons_of_ne_nil (Text.pieces_ne_nil '/' front)
    refine ⟨String.ofList first, more.map String.ofList, ?_, fun name apart => ?_⟩
    · rw [Text.cut, text, Text.pieces_append_cons, cut, List.map_append, List.filter_append]
      exact (List.append_nil _).symm
    · rw [Text.cut, toList_join nonempty, if_pos slashed, text, List.append_assoc,
        List.singleton_append, Text.pieces_append_cons, cut, List.map_append, own name apart]
      rfl
  · have pieces : Text.cut '/' dir.text ≠ [] := Text.cut_ne_nil dir.text
    obtain ⟨first, more, cut⟩ := List.exists_cons_of_ne_nil pieces
    refine ⟨first, more, by rw [cut], fun name apart => ?_⟩
    rw [Text.cut, toList_join nonempty, if_neg slashed, List.append_assoc, List.singleton_append,
      Text.pieces_append_cons, List.map_append, own name apart]
    exact congrArg (· ++ [name]) cut

theorem isAbsolute_of_cut {first : String} {rest : List String}
    (cut : Text.cut '/' path.text = first :: rest) :
    path.isAbsolute = true ↔ first = "" ∧ rest ≠ [] := by
  have apart : '/' ∉ first.toList := Text.not_mem_of_mem_cut (cut ▸ List.mem_cons_self)
  rw [isAbsolute, decide_eq_true_iff, text_eq_joined, cut, List.map_cons]
  cases chars : first.toList with
  | nil =>
    have empty : first = "" := String.toList_eq_nil_iff.mp chars
    cases rest with
    | nil => simp [Text.joined]
    | cons next more => simp [Text.joined, empty]
  | cons c more =>
    have other : c ≠ '/' := fun same => apart (by rw [chars, same]; exact List.mem_cons_self)
    have told : first ≠ "" := fun empty => by simp [empty] at chars
    cases rest with
    | nil => simp [Text.joined, other]
    | cons next later => simp [Text.joined, other, told]

theorem isAbsolute_congr {other : Path} (cut : Text.cut '/' path.text = before ++ [last])
    (cut' : Text.cut '/' other.text = before ++ [name]) : path.isAbsolute = other.isAbsolute := by
  rw [Bool.eq_iff_iff]
  cases before with
  | nil =>
    rw [isAbsolute_of_cut cut, isAbsolute_of_cut cut']
    exact iff_of_false (fun root => root.2 rfl) fun root => root.2 rfl
  | cons first rest =>
    rw [isAbsolute_of_cut cut, isAbsolute_of_cut cut']
    exact and_congr_right fun _ => iff_of_true (by simp) (by simp)

def above : List String → List String
  | [] => []
  | first :: rest => (if first = "" then "/" else first) :: rest.filter (fun c => !isBlank c)

theorem components_of_cut {blanks : List String}
    (cut : Text.cut '/' path.text = before ++ last :: blanks) (solid : isBlank last = false)
    (blank : ∀ component ∈ blanks, isBlank component = true) :
    path.components = above before ++ [last] := by
  have told := (ne_of_solid solid).1
  have none : blanks.filter (fun c => !isBlank c) = [] :=
    List.filter_eq_nil_iff.mpr fun component listed => by simp [blank component listed]
  cases before with
  | nil =>
    have relative : ¬path.isAbsolute = true := fun root => told ((isAbsolute_of_cut cut).mp root).1
    simp [components, cut, relative, told, none, above]
  | cons first rest =>
    have root : path.isAbsolute = true ↔ first = "" :=
      (isAbsolute_of_cut cut).trans (and_iff_left (by simp))
    by_cases empty : first = ""
    · simp [components, cut, root.mpr empty, empty, none, solid, above]
    · simp [components, cut, mt root.mp empty, empty, none, solid, above]

theorem exists_components_join (nonempty : dir.text ≠ "") :
    ∃ above : List String, ∀ name : String, '/' ∉ name.toList → isBlank name = false →
      (dir.join name).components = above ++ [name] := by
  obtain ⟨first, front, -, cut⟩ := exists_cut_join nonempty
  refine ⟨above (first :: front), fun name apart solid => ?_⟩
  exact components_of_cut (cut name apart) solid (List.forall_mem_nil _)

/-! ## The order of paths -/

theorem leComponents_append (above : List String) (a b : List String) :
    leComponents (above ++ a) (above ++ b) = leComponents a b := by
  induction above with
  | nil => rfl
  | cons first rest ih =>
    rw [List.cons_append, List.cons_append, leComponents, if_pos rfl, ih]

theorem leComponents_singleton (a b : String) : leComponents [a] [b] = true ↔ a ≤ b := by
  rw [leComponents]
  split
  · rename_i same
    exact iff_of_true rfl (same ▸ String.le_refl a)
  · rename_i other
    rw [decide_eq_true_iff]
    exact ⟨Std.le_of_lt, fun le => Std.lt_of_le_of_ne le other⟩

theorem leComponents_trans {a b c : List String} (first : leComponents a b = true)
    (second : leComponents b c = true) : leComponents a c = true := by
  -- The first place where two of the three differ decides.
  induction a generalizing b c with
  | nil => rfl
  | cons x a ih =>
    cases b with
    | nil => cases first
    | cons y b =>
      cases c with
      | nil => cases second
      | cons z c =>
        rw [leComponents] at first second ⊢
        split at first
        · rename_i same
          subst same
          split at second
          · rename_i same
            rw [if_pos same]
            exact ih first second
          · rename_i other
            rw [if_neg other]
            exact second
        · have less := of_decide_eq_true first
          split at second
          · rename_i other same
            rw [if_neg (same ▸ other)]
            exact same ▸ first
          · have less' := String.lt_trans less (of_decide_eq_true second)
            have other : x ≠ z := fun same => String.lt_irrefl z (same ▸ less')
            rw [if_neg other]
            exact decide_eq_true less'

theorem leComponents_total (a b : List String) :
    leComponents a b = true ∨ leComponents b a = true := by
  induction a generalizing b with
  | nil => exact .inl rfl
  | cons x a ih =>
    cases b with
    | nil => exact .inr rfl
    | cons y b =>
      rw [leComponents, leComponents]
      by_cases same : x = y
      · rw [if_pos same, if_pos same.symm]
        exact ih b
      · rw [if_neg same, if_neg (Ne.symm same), decide_eq_true_iff, decide_eq_true_iff]
        exact lt_or_gt_of_ne same

theorem le_trans {a b c : Path} (first : a.le b = true) (second : b.le c = true) :
    a.le c = true :=
  leComponents_trans first second

theorem le_total (a b : Path) : (a.le b || b.le a) = true :=
  (Bool.or_eq_true _ _).mpr (leComponents_total _ _)

theorem le_join_iff (nonempty : dir.text ≠ "") {a b : String} (apart : '/' ∉ a.toList)
    (apart' : '/' ∉ b.toList) (solid : isBlank a = false) (solid' : isBlank b = false) :
    (dir.join a).le (dir.join b) = true ↔ a ≤ b := by
  obtain ⟨above, components⟩ := exists_components_join nonempty
  rw [le, components a apart solid, components b apart' solid', leComponents_append,
    leComponents_singleton]

theorem mergeSort_join (nonempty : dir.text ≠ "") {files : List Path} {names : List String}
    (perm : files.Perm (names.map dir.join)) (apart : ∀ name ∈ names, '/' ∉ name.toList)
    (solid : ∀ name ∈ names, isBlank name = false) (sorted : names.Pairwise (· < ·)) :
    files.mergeSort le = names.map dir.join := by
  have ordered : (names.map dir.join).Pairwise fun a b => a.le b = true := by
    rw [List.pairwise_map]
    refine sorted.imp_of_mem fun {a b} there there' less => ?_
    exact (le_join_iff nonempty (apart a there) (apart b there') (solid a there)
      (solid b there')).mpr (Std.le_of_lt less)
  have merged : (files.mergeSort le).Pairwise fun a b => a.le b = true :=
    @List.pairwise_mergeSort Path le (fun _ _ _ => le_trans) le_total files
  refine List.Perm.eq_of_pairwise (fun a b left right le ge => ?_) merged ordered
    ((List.mergeSort_perm files _).trans perm)
  rw [List.mem_mergeSort, perm.mem_iff] at left
  obtain ⟨x, there, rfl⟩ := List.mem_map.mp left
  obtain ⟨y, there', rfl⟩ := List.mem_map.mp right
  have order := @le_join_iff dir nonempty
  rw [order (apart x there) (apart y there') (solid x there) (solid y there')] at le
  rw [order (apart y there') (apart x there) (solid y there') (solid x there)] at ge
  rw [String.le_antisymm le ge]

/-! ## The directory of a path -/

def folderPieces : List String → List String
  | [] => ["."]
  | first :: rest => first :: dropBlankEnd rest

theorem exists_blanks (components : List String) :
    ∃ blanks, components = dropBlankEnd components ++ blanks ∧
      ∀ component ∈ blanks, isBlank component = true := by
  refine ⟨(components.reverse.takeWhile isBlank).reverse, ?_, fun component listed => ?_⟩
  · rw [dropBlankEnd, ← List.reverse_append, List.takeWhile_append_dropWhile, List.reverse_reverse]
  · exact List.all_eq_true.mp List.all_takeWhile component (List.mem_reverse.mp listed)

theorem filter_dropBlankEnd (components : List String) :
    (dropBlankEnd components).filter (fun c => !isBlank c) =
      components.filter (fun c => !isBlank c) := by
  obtain ⟨blanks, whole, blank⟩ := exists_blanks components
  have none : blanks.filter (fun c => !isBlank c) = [] :=
    List.filter_eq_nil_iff.mpr fun component listed => by simp [blank component listed]
  conv_rhs => rw [whole, List.filter_append, none, List.append_nil]

theorem filter_folderPieces (before : List String) :
    (folderPieces before).filter (fun c => !isBlank c) = before.filter (fun c => !isBlank c) := by
  cases before with
  | nil => rfl
  | cons first rest =>
    rw [folderPieces, List.filter_cons, List.filter_cons, filter_dropBlankEnd]

theorem dropBlankEnd_cons {first : String} (solid : isBlank first = false) (rest : List String) :
    dropBlankEnd (first :: rest) = first :: dropBlankEnd rest := by
  have kept : ¬isBlank first = true := Bool.eq_false_iff.mp solid
  rw [dropBlankEnd, dropBlankEnd, List.reverse_cons, List.dropWhile_append]
  split
  · rename_i empty
    rw [List.isEmpty_iff.mp empty, List.dropWhile_cons_of_neg kept]
    rfl
  · rw [List.reverse_append]
    rfl

theorem cut_of_lastComponent (located : path.lastComponent = some (before, last)) :
    isBlank last = false ∧ ∃ blanks, Text.cut '/' path.text = before ++ last :: blanks ∧
      ∀ component ∈ blanks, isBlank component = true := by
  have forward : Text.cut '/' path.text = (Text.cut '/' path.text).reverse.reverse :=
    (List.reverse_reverse _).symm
  rw [lastComponent] at located
  rw [forward]
  generalize (Text.cut '/' path.text).reverse = components at located
  have whole := components.takeWhile_append_dropWhile (p := isBlank)
  have first := components.head?_dropWhile_not isBlank
  cases kept : components.dropWhile isBlank with
  | nil =>
    simp only [kept] at located
    cases located
  | cons name front =>
    simp only [kept] at located
    cases located
    rw [kept] at whole first
    refine ⟨first, (components.takeWhile isBlank).reverse, ?_, fun component listed => ?_⟩
    · conv_lhs => rw [← whole, List.reverse_append, List.reverse_cons, List.append_assoc]
      rfl
    · exact List.all_eq_true.mp List.all_takeWhile component (List.mem_reverse.mp listed)

theorem directory_eq (located : path.lastComponent = some (before, last)) :
    path.directory = if before = [] then ⟨""⟩
      else if folderPieces before = [""] then ⟨"/"⟩ else ofPieces (folderPieces before) := by
  rw [directory, located]
  cases before with
  | nil => rfl
  | cons first rest =>
    rw [if_neg (List.cons_ne_nil _ _), folderPieces]
    dsimp only
    by_cases blank : isBlank first = true
    · rw [if_pos blank]
      cases dropBlankEnd rest with
      | nil => simp only [List.cons.injEq, and_true]; rfl
      | cons next more =>
        rw [if_neg fun same => List.cons_ne_nil _ _ (List.cons.inj same).2]
    · have solid := Bool.eq_false_iff.mpr blank
      have other : first ≠ "" := fun same => blank (same ▸ rfl)
      rw [if_neg blank, dropBlankEnd_cons solid, if_neg fun same => other (List.cons.inj same).1]

theorem not_mem_folderPieces (located : path.lastComponent = some (before, last)) :
    ∀ component ∈ folderPieces before, '/' ∉ component.toList := by
  obtain ⟨-, blanks, cut, -⟩ := cut_of_lastComponent located
  intro component listed
  cases before with
  | nil =>
    cases List.mem_singleton.mp listed
    decide
  | cons first rest =>
    refine Text.not_mem_of_mem_cut (cut ▸ List.mem_append_left _ ?_)
    rcases List.mem_cons.mp listed with rfl | later
    · exact List.mem_cons_self
    · obtain ⟨behind, whole, -⟩ := exists_blanks rest
      rw [whole]
      exact List.mem_cons_of_mem _ (List.mem_append_left _ later)

theorem folderPieces_ne_nil (before : List String) : folderPieces before ≠ [] := by
  cases before <;> exact List.cons_ne_nil _ _

theorem folder_eq (located : path.lastComponent = some (before, last)) :
    path.folder =
      if folderPieces before = [""] then ⟨"/"⟩ else ofPieces (folderPieces before) := by
  have told : folderPieces before ≠ [""] → (ofPieces (folderPieces before)).text ≠ "" := by
    intro other empty
    have cut := Text.cut_eq (folderPieces_ne_nil before) (not_mem_folderPieces located)
      (toList_ofPieces _)
    rw [empty] at cut
    exact other cut.symm
  rw [folder, directory_eq located]
  by_cases bare : before = []
  · subst bare
    rfl
  · rw [if_neg bare]
    refine if_neg ?_
    split
    · exact fun same => absurd same (by decide)
    · rename_i other
      exact told other

theorem folder_congr {other : Path} {name : String}
    (located : path.lastComponent = some (before, last))
    (located' : other.lastComponent = some (before, name)) : other.folder = path.folder := by
  rw [folder_eq located, folder_eq located']

theorem filter_cut_folder (located : path.lastComponent = some (before, last)) :
    (Text.cut '/' path.folder.text).filter (fun c => !isBlank c) =
      before.filter (fun c => !isBlank c) := by
  rw [folder_eq located, ← filter_folderPieces before]
  split
  · rename_i root
    rw [root]
    decide
  · rw [Text.cut_eq (folderPieces_ne_nil before) (not_mem_folderPieces located)
      (toList_ofPieces _)]

theorem isAbsolute_folder (located : path.lastComponent = some (before, last)) :
    path.folder.isAbsolute = path.isAbsolute := by
  obtain ⟨solid, blanks, cut, -⟩ := cut_of_lastComponent located
  have pieces := Text.cut_eq (folderPieces_ne_nil before) (not_mem_folderPieces located)
    (toList_ofPieces _)
  rw [folder_eq located, Bool.eq_iff_iff]
  cases before with
  | nil =>
    rw [isAbsolute_of_cut cut, if_neg (by decide)]
    exact iff_of_false (by decide) fun root => (ne_of_solid solid).1 root.1
  | cons first rest =>
    rw [isAbsolute_of_cut cut]
    split
    · rename_i root
      cases (List.cons.inj root).1
      exact iff_of_true (by decide)
        ⟨rfl, List.append_ne_nil_of_right_ne_nil _ (List.cons_ne_nil _ _)⟩
    · rename_i other
      rw [isAbsolute_of_cut pieces]
      refine and_congr_right fun empty => iff_of_true (fun none => other ?_)
        (List.append_ne_nil_of_right_ne_nil _ (List.cons_ne_nil _ _))
      rw [folderPieces, empty, none]

theorem sublist_beside (located : path.lastComponent = some (before, last))
    (some : before ≠ []) : (path.beside last).text.toList.Sublist path.text.toList := by
  obtain ⟨-, blanks, cut, -⟩ := cut_of_lastComponent located
  have kept : (folderPieces before ++ [last]).Sublist (before ++ last :: blanks) := by
    refine List.Sublist.append ?_ (List.sublist_append_left [last] blanks)
    cases before with
    | nil => exact absurd rfl some
    | cons first rest =>
      obtain ⟨behind, whole, -⟩ := exists_blanks rest
      conv_rhs => rw [whole]
      exact (List.sublist_append_left _ _).cons_cons first
  have shorter : (Text.joined '/' ((folderPieces before ++ [last]).map String.toList)).Sublist
      (Text.joined '/' ((before ++ last :: blanks).map String.toList)) :=
    Text.joined_sublist (kept.map String.toList)
  rw [← cut, ← text_eq_joined, List.map_append, List.map_singleton,
    Text.joined_concat fun none => folderPieces_ne_nil before (List.map_eq_nil_iff.mp none)]
    at shorter
  refine List.Sublist.trans ?_ shorter
  rw [beside, toList_join path.text_folder_ne, folder_eq located]
  split
  · rename_i root
    rw [root]
    exact List.Sublist.refl _
  · rw [toList_ofPieces]
    split
    · exact (List.Sublist.refl _).append (List.sublist_cons_self _ _)
    · rw [List.append_assoc]
      exact List.Sublist.refl _

/-! ## Extensions of names in a directory -/

theorem exists_cut_of_join (dir : Path) :
    ∃ before, ∀ name : String, '/' ∉ name.toList →
      Text.cut '/' (dir.join name).text = before ++ [name] := by
  by_cases empty : dir.text = ""
  · refine ⟨[], fun name apart => ?_⟩
    rw [join, if_pos empty, Text.cut, Text.pieces_of_not_mem apart, List.map_singleton,
      String.ofList_toList]
    rfl
  · obtain ⟨first, front, -, cut⟩ := exists_cut_join empty
    exact ⟨first :: front, cut⟩

theorem ofPieces_eq_join (cut : Text.cut '/' (dir.join name).text = before ++ [name]) :
    ofPieces (before ++ [name]) = dir.join name := by
  have chars : (ofPieces (before ++ [name])).text.toList = (dir.join name).text.toList := by
    rw [toList_ofPieces, text_eq_joined (dir.join name), cut]
  cases joined : dir.join name with
  | mk text =>
    rw [joined] at chars
    exact congrArg Path.mk (String.toList_inj.mp chars)

theorem splitName_append {stem ext : String} (nonempty : stem ≠ "") (apart : '.' ∉ ext.toList) :
    splitName (stem ++ "." ++ ext) = (stem, some ext) := by
  have chars : (stem ++ "." ++ ext).toList = stem.toList ++ '.' :: ext.toList := by
    rw [String.toList_append, String.toList_append, List.append_assoc]
    rfl
  rw [splitName, chars, Text.cutLast_append_cons _ apart]
  cases text : stem.toList with
  | nil => exact absurd (String.toList_eq_nil_iff.mp text) nonempty
  | cons c rest =>
    dsimp only
    rw [← text, String.ofList_toList, String.ofList_toList]

theorem splitName_of_extension {ext : String} (told : (splitName name).2 = some ext) :
    (splitName name).1 ≠ "" ∧ name = (splitName name).1 ++ "." ++ ext := by
  by_cases dotted : '.' ∈ name.toList
  · obtain ⟨front, back, chars, apart⟩ := Text.exists_last dotted
    have cut := Text.cutLast_append_cons front apart
    rw [← chars] at cut
    cases front with
    | nil =>
      rw [splitName, cut] at told
      cases told
    | cons c rest =>
      have split : splitName name = (String.ofList (c :: rest), some (String.ofList back)) := by
        rw [splitName, cut]
      rw [split] at told ⊢
      cases told
      refine ⟨fun empty => ?_, String.toList_inj.mp ?_⟩
      · simpa using congrArg String.toList empty
      · simp [chars]
  · rw [splitName, Text.cutLast_of_not_mem dotted] at told
    cases told

variable {stem ext next : String}

/-- A new extension gives another name in the directory, unless the stem is a single dot. -/
theorem withExtension_join (nonempty : stem ≠ "") (dots : stem ≠ ".") (told : next ≠ "")
    (apart : '.' ∉ ext.toList) (plain : '/' ∉ (stem ++ "." ++ ext).toList)
    (plain' : '/' ∉ (stem ++ "." ++ next).toList) (solid : isBlank (stem ++ "." ++ ext) = false)
    (parent : stem ++ "." ++ ext ≠ "..") :
    (dir.join (stem ++ "." ++ ext)).withExtension next = dir.join (stem ++ "." ++ next) := by
  obtain ⟨before, cut⟩ := exists_cut_of_join dir
  have split := splitName_append nonempty apart
  rw [withExtension, located, lastComponent_of_cut (cut _ plain) solid]
  dsimp only
  rw [if_neg parent]
  dsimp only
  rw [split, renamed, split, if_neg told, decide_eq_false dots]
  exact ofPieces_eq_join (cut _ plain')

theorem cut_withExtension_of_dot (cut : Text.cut '/' path.text = before ++ [name])
    (solid : isBlank name = false) (parent : name ≠ "..") (dot : (splitName name).1 = ".")
    (ext : String) : Text.cut '/' (path.withExtension ext).text = before ++ [".."] := by
  have ends : path.endsInName = true := by
    rw [endsInName, cut, List.getLast?_concat]
    exact (Bool.not_eq_true' _).mpr solid
  have above : path.withExtension ext = ofPieces (before ++ [".."]) := by
    rw [withExtension, located, lastComponent_of_cut cut solid]
    dsimp only
    rw [if_neg parent]
    dsimp only
    rw [dot, ends]
    exact if_pos rfl
  have apart : ∀ component ∈ before ++ [".."], '/' ∉ component.toList := by
    intro component listed
    rcases List.mem_append.mp listed with early | late
    · exact Text.not_mem_of_mem_cut (cut ▸ List.mem_append_left _ early)
    · cases List.mem_singleton.mp late
      decide
  rw [above]
  exact Text.cut_eq (List.append_ne_nil_of_right_ne_nil _ (List.cons_ne_nil _ _)) apart
    (toList_ofPieces _)

end Path

end EvidencePages

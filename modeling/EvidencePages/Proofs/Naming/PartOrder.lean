import EvidencePages.Proofs.Naming.PartExtension
import EvidencePages.Proofs.Naming.Wildcard
import EvidencePages.Proofs.Store.Changes

/-!
# The order of found parts

The parts of a set are found in two ways. Without checksums their names are
counted up to the first that is not there, with checksums the directory is
searched for names that match the first one's and the paths are sorted. Names
sort as their extensions do, and those increase with the number, so both ways
give the parts from the first to the last.

Only a set whose stem is a single dot is not counted beyond its first part: the
first name without its extension is `..`, and that is no name to extend.
-/

set_option autoImplicit false

namespace EvidencePages

namespace EvidenceParts

open PartExtension Wildcard

/-! ## Numbered extensions -/

/-- The numbers of the extensions from `E01` to `ZZZ`. -/
structure Allowed (number : Nat) : Prop where
  positive : 1 ≤ number
  last : number ≤ lastNumber 4

theorem allowed_one : Allowed 1 := ⟨by decide, by decide⟩

def extensionOf (number : Nat) : String :=
  (extensionOf? "E01" number).getD ""

variable {number : Nat}

theorem extensionOf?_E01 (allowed : Allowed number) :
    extensionOf? "E01" number = some (String.ofList (spelled true 4 number)) := by
  have lead : "E01".toList = letter true 4 :: ['0', '1'] := by decide
  rw [extensionOf?_eq (by decide) lead (Nat.le_succ_of_le allowed.last),
    if_pos ⟨allowed.positive, allowed.last⟩]

theorem extensionOf?_eq_extensionOf (allowed : Allowed number) :
    extensionOf? "E01" number = some (extensionOf number) := by
  rw [extensionOf, extensionOf?_E01 allowed]
  rfl

theorem toList_extensionOf (allowed : Allowed number) :
    (extensionOf number).toList = spelled true 4 number := by
  rw [extensionOf, extensionOf?_E01 allowed]
  exact String.toList_ofList

theorem length_extensionOf (allowed : Allowed number) :
    (extensionOf number).toList.length = 3 := by
  rw [toList_extensionOf allowed]
  exact (shaped_spelled true (by decide) allowed.last).three

theorem not_mem_extensionOf (allowed : Allowed number) {c : Char} (digit : c.isDigit = false)
    (alpha : c.isAlpha = false) : c ∉ (extensionOf number).toList := by
  rw [toList_extensionOf allowed]
  intro inside
  rcases (shaped_spelled true (by decide) allowed.last).each c inside with found | found
  · rw [digit] at found
    cases found
  · rw [found.1] at alpha
    cases alpha

/-! ## Numbered names -/

def numbered (stem : String) (number : Nat) : String := stem ++ "." ++ extensionOf number

/-- The name of a part with its checksum. -/
def summed (stem : String) (sum : Nat → String) (number : Nat) : String :=
  numbered stem number ++ "." ++ sum number

structure IsSum (size : Nat) (sum : String) : Prop where
  length : sum.toList.length = size
  dot : '.' ∉ sum.toList
  feed : '\n' ∉ sum.toList
  slash : '/' ∉ sum.toList

variable {stem : String} {sum : Nat → String} {size : Nat}

theorem toList_numbered (stem : String) (number : Nat) :
    (numbered stem number).toList = stem.toList ++ '.' :: (extensionOf number).toList := by
  rw [numbered, String.toList_append, String.toList_append, List.append_assoc]
  rfl

theorem toList_summed (stem : String) (sum : Nat → String) (number : Nat) :
    (summed stem sum number).toList =
      stem.toList ++ '.' :: ((extensionOf number).toList ++ '.' :: (sum number).toList) := by
  rw [summed, String.toList_append, String.toList_append, toList_numbered, List.append_assoc,
    List.append_assoc]
  rfl

theorem slash_numbered (plain : '/' ∉ stem.toList) (allowed : Allowed number) :
    '/' ∉ (numbered stem number).toList := by
  rw [toList_numbered, List.mem_append, List.mem_cons, not_or, not_or]
  exact ⟨plain, by decide, not_mem_extensionOf allowed (by decide) (by decide)⟩

theorem slash_summed (plain : '/' ∉ stem.toList) (allowed : Allowed number)
    (isSum : IsSum size (sum number)) : '/' ∉ (summed stem sum number).toList := by
  rw [toList_summed, List.mem_append, List.mem_cons, List.mem_append, List.mem_cons]
  simp only [not_or]
  exact ⟨plain, by decide, not_mem_extensionOf allowed (by decide) (by decide), by decide,
    isSum.slash⟩

theorem solid_of_length {name : String} (long : 2 < name.toList.length) :
    Path.isBlank name = false ∧ name ≠ ".." := by
  constructor
  · refine Bool.eq_false_iff.mpr fun blank => ?_
    rcases Path.isBlank_iff.mp blank with rfl | rfl <;> exact absurd long (by decide)
  · rintro rfl
    exact absurd long (by decide)

theorem solid_numbered (stem : String) (allowed : Allowed number) :
    Path.isBlank (numbered stem number) = false ∧ numbered stem number ≠ ".." := by
  refine solid_of_length ?_
  rw [toList_numbered, List.length_append, List.length_cons, length_extensionOf allowed]
  omega

theorem solid_summed (stem : String) (sum : Nat → String) (allowed : Allowed number) :
    Path.isBlank (summed stem sum number) = false ∧ summed stem sum number ≠ ".." := by
  refine solid_of_length ?_
  rw [toList_summed, List.length_append, List.length_cons, List.length_append,
    length_extensionOf allowed]
  omega

/-! ## The order of names -/

theorem append_lt_append {a b : List Char} (less : a < b) (same : a.length = b.length)
    (x y : List Char) : a ++ x < b ++ y := by
  induction a generalizing b with
  | nil =>
    cases List.length_eq_zero_iff.mp same.symm
    exact absurd less (List.lt_irrefl [])
  | cons c a ih =>
    cases b with
    | nil => cases same
    | cons d b =>
      rw [List.cons_append, List.cons_append, List.cons_lt_cons_iff]
      rcases List.cons_lt_cons_iff.mp less with first | ⟨rfl, rest⟩
      · exact .inl first
      · exact .inr ⟨rfl, ih rest (Nat.succ.inj same)⟩

theorem summed_lt (stem : String) (sum : Nat → String) {low high : Nat} (allowed : Allowed low)
    (allowed' : Allowed high) (less : low < high) :
    summed stem sum low < summed stem sum high := by
  rw [String.lt_iff, toList_summed, toList_summed]
  refine List.append_left_lt (List.cons_lt_cons_iff.mpr (.inr ⟨rfl, ?_⟩))
  refine append_lt_append ?_ ?_ _ _
  · rw [toList_extensionOf allowed, toList_extensionOf allowed']
    exact spelled_lt true less allowed'.last
  · rw [length_extensionOf allowed, length_extensionOf allowed']

/-! ## The first name's pattern -/

theorem getElem?_separated {block : List Char} {i : Nat} (apart : '.' ∉ block) (rest : List Char)
    (dot : (block ++ '.' :: rest)[i]? = some '.') :
    i = block.length ∨ block.length < i ∧ rest[i - (block.length + 1)]? = some '.' := by
  rcases Nat.lt_trichotomy i block.length with early | here | late
  · rw [List.getElem?_append_left early] at dot
    exact absurd (List.mem_of_getElem? dot) apart
  · exact .inl here
  · rw [List.getElem?_append_right (Nat.le_of_lt late), List.getElem?_cons,
      if_neg (Nat.sub_ne_zero_of_lt late)] at dot
    exact .inr ⟨late, dot⟩

theorem described_summed (stem : String) (allowed : Allowed number) (firstSum : IsSum size (sum 1))
    (isSum : IsSum size (sum number)) :
    Described (summed stem sum 1).toList stem.toList.length (summed stem sum number).toList := by
  have three := length_extensionOf allowed
  have three' := length_extensionOf allowed_one
  refine ⟨?_, ?_, fun i behind dot => ?_⟩
  · simp only [toList_summed, List.length_append, List.length_cons, three, three', isSum.length,
      firstSum.length]
  · rw [toList_summed, toList_summed, List.take_left, List.take_left]
  · obtain ⟨k, rfl⟩ := Nat.exists_eq_add_of_le behind
    rw [toList_summed, List.getElem?_append_right (Nat.le_add_right _ _),
      Nat.add_sub_cancel_left] at dot ⊢
    cases k with
    | zero => rfl
    | succ k =>
      rw [List.getElem?_cons_succ] at dot ⊢
      have apart : '.' ∉ (extensionOf 1).toList :=
        not_mem_extensionOf allowed_one (by decide) (by decide)
      rcases getElem?_separated apart _ dot with here | ⟨-, later⟩
      · rw [here, three', ← three, List.getElem?_append_right (Nat.le_refl _), Nat.sub_self]
        rfl
      · exact absurd (List.mem_of_getElem? later) firstSum.dot

theorem feed_summed (allowed : Allowed number) (isSum : IsSum size (sum number)) :
    '\n' ∉ (summed stem sum number).toList.drop stem.toList.length := by
  rw [toList_summed, List.drop_left, List.mem_cons, List.mem_append, List.mem_cons]
  simp only [not_or]
  exact ⟨by decide, not_mem_extensionOf allowed (by decide) (by decide), by decide,
    isSum.feed⟩

/-! ## Sets of files -/

variable {count : Nat}

/-- Names of the first `count` parts. The name of the first is cut behind the stem. -/
structure IsSet (stem : String) (sum : Nat → String) (size count : Nat) : Prop where
  nonempty : stem ≠ ""
  slash : '/' ∉ stem.toList
  allowed : Allowed count
  first : FirstMarker (summed stem sum 1).toList stem.toList.length
  sums : ∀ k, 1 ≤ k → k ≤ count → IsSum size (sum k)

/-- The directory holds the files of the first `count` names. -/
def Holds (store : FileStore) (dir : Path) (name : Nat → String) (count : Nat) : Prop :=
  ∀ k, 1 ≤ k → k ≤ count → store.isFile (dir.join (name k)) = true

/-- The directory is listed, and what else is in it does not match the pattern of the first name. -/
def MatchesOnly (store : FileStore) (dir : Path) (name : Nat → String) (count : Nat) : Prop :=
  ∃ listed, store.names (dir.join (name 1)).folder = .ok listed ∧
    ∀ pattern, pattern? (name 1).toList = some pattern → ∀ other ∈ listed,
      matching pattern other.toList = true → ∃ k, 1 ≤ k ∧ k ≤ count ∧ other = name k

variable {store : FileStore} {dir : Path}

namespace IsSet

theorem allowed_of_le (set : IsSet stem sum size count) (positive : 1 ≤ number)
    (within : number ≤ count) : Allowed number :=
  ⟨positive, Nat.le_trans within set.allowed.last⟩

theorem slash_name (set : IsSet stem sum size count) (positive : 1 ≤ number)
    (within : number ≤ count) : '/' ∉ (summed stem sum number).toList :=
  slash_summed set.slash (set.allowed_of_le positive within) (set.sums number positive within)

theorem find_beside (set : IsSet stem sum size count)
    (held : Holds store dir (summed stem sum) count) (positive : 1 ≤ number)
    (within : number ≤ count) :
    store.find ((dir.join (summed stem sum 1)).beside (summed stem sum number)) =
      store.find (dir.join (summed stem sum number)) := by
  obtain ⟨before, cut⟩ := Path.exists_cut_of_join dir
  have first := cut _ (set.slash_name (Nat.le_refl 1) set.allowed.positive)
  have own := cut _ (set.slash_name positive within)
  obtain ⟨solid, -⟩ := solid_summed stem sum allowed_one
  obtain ⟨solid', parent⟩ := solid_summed stem sum (set.allowed_of_le positive within)
  obtain ⟨file, there⟩ := FileStore.isFile_iff.mp (held number positive within)
  have same := Path.folder_congr (Path.lastComponent_of_cut first solid)
    (Path.lastComponent_of_cut own solid')
  have beside := FileStore.find_beside own solid' parent there
  rw [Path.beside, same] at beside
  exact beside.trans there.symm

theorem fileName_first (set : IsSet stem sum size count) (dir : Path) :
    (dir.join (summed stem sum 1)).fileName = some (summed stem sum 1) := by
  obtain ⟨before, cut⟩ := Path.exists_cut_of_join dir
  obtain ⟨solid, parent⟩ := solid_summed stem sum allowed_one
  rw [Path.fileName_of_cut (cut _ (set.slash_name (Nat.le_refl 1) set.allowed.positive)) solid,
    if_neg parent]

theorem mem_names (set : IsSet stem sum size count)
    (held : Holds store dir (summed stem sum) count) (positive : 1 ≤ number)
    (within : number ≤ count) {listed : List String}
    (lists : store.names (dir.join (summed stem sum 1)).folder = .ok listed) :
    summed stem sum number ∈ listed := by
  obtain ⟨solid, parent⟩ := solid_summed stem sum (set.allowed_of_le positive within)
  obtain ⟨file, there⟩ := FileStore.isFile_iff.mp (held number positive within)
  exact FileStore.mem_names_of_find (Path.text_folder_ne _) (set.slash_name positive within) solid
    parent ((set.find_beside held positive within).trans there) lists

theorem matching_name (set : IsSet stem sum size count) (positive : 1 ≤ number)
    (within : number ≤ count) {pattern : List Char}
    (formed : pattern? (summed stem sum 1).toList = some pattern) :
    matching pattern (summed stem sum number).toList = true := by
  have allowed := set.allowed_of_le positive within
  have isSum := set.sums number positive within
  have described := described_summed stem allowed
    (set.sums 1 (Nat.le_refl 1) set.allowed.positive) isSum
  rw [matching_iff, described.accepts_iff set.first formed]
  exact feed_summed allowed isSum

theorem pairwise_lt (set : IsSet stem sum size count) :
    ((List.range' 1 count).map (summed stem sum)).Pairwise (· < ·) := by
  rw [List.pairwise_map]
  refine (List.pairwise_lt_range' 1).imp_of_mem fun {a b} low high less => ?_
  obtain ⟨positive, below⟩ := List.mem_range'_1.mp low
  obtain ⟨positive', below'⟩ := List.mem_range'_1.mp high
  exact summed_lt stem sum (set.allowed_of_le positive (by omega))
    (set.allowed_of_le positive' (by omega)) less

theorem parts_eq (set : IsSet stem sum size count) (tree : store.IsTree)
    (held : Holds store dir (summed stem sum) count)
    (only : MatchesOnly store dir (summed stem sum) count) :
    Wildcard.parts store (dir.join (summed stem sum 1)) = .ok ((List.range' 1 count).map fun k =>
      (dir.join (summed stem sum 1)).beside (summed stem sum k)) := by
  obtain ⟨pattern, formed⟩ : ∃ pattern, pattern? (summed stem sum 1).toList = some pattern :=
    ⟨_, set.first.pattern?_eq⟩
  obtain ⟨listed, lists, only⟩ := only
  have told : pattern? ((dir.join (summed stem sum 1)).fileName.getD "").toList = some pattern := by
    rw [set.fileName_first dir]
    exact formed
  have member : ∀ name ∈ (List.range' 1 count).map (summed stem sum),
      ∃ k, 1 ≤ k ∧ k ≤ count ∧ summed stem sum k = name := by
    intro name there
    obtain ⟨k, within, same⟩ := List.mem_map.mp there
    obtain ⟨positive, below⟩ := List.mem_range'_1.mp within
    exact ⟨k, positive, by omega, same⟩
  have parts := parts_of_names told lists (tree.nodup_names lists) set.pairwise_lt
    (fun name there => ?_) (fun name there => ?_) (fun name there => ?_)
    fun other there matched => ?_
  · rw [parts, List.map_map]
    rfl
  · obtain ⟨k, positive, within, rfl⟩ := member name there
    exact set.slash_name positive within
  · obtain ⟨k, positive, within, rfl⟩ := member name there
    exact (solid_summed stem sum (set.allowed_of_le positive within)).1
  · obtain ⟨k, positive, within, rfl⟩ := member name there
    refine ⟨set.mem_names held positive within lists, set.matching_name positive within formed, ?_⟩
    rw [FileStore.isFile, set.find_beside held positive within]
    exact held k positive within
  · obtain ⟨k, positive, within, rfl⟩ := only pattern formed other there matched
    exact List.mem_map_of_mem (List.mem_range'_1.mpr ⟨positive, by omega⟩)

end IsSet

/-! ## Counting names -/

theorem found_eq {first : Path} {ext : String} {place : Nat → Path} {fuel : Nat}
    (enough : count < fuel)
    (files : ∀ k, number ≤ k → k < number + count →
      ∃ next, extensionOf? ext k = some next ∧
        first.withExtension next = place k ∧ store.isFile (place k) = true)
    (gap : ∀ next, extensionOf? ext (number + count) = some next →
      store.isFile (first.withExtension next) = false) :
    found store first ext fuel number = (List.range' number count).map place := by
  induction count generalizing number fuel with
  | zero =>
    obtain ⟨fuel, rfl⟩ := Nat.exists_eq_add_one_of_ne_zero (Nat.ne_of_gt enough)
    rw [found]
    split
    · rfl
    · rename_i next named
      dsimp only
      rw [gap next named]
      rfl
  | succ count ih =>
    obtain ⟨fuel, rfl⟩ := Nat.exists_eq_add_one_of_ne_zero (Nat.ne_of_gt (Nat.zero_lt_of_lt enough))
    obtain ⟨next, named, same, file⟩ := files number (Nat.le_refl _) (by omega)
    rw [found, named]
    dsimp only
    rw [same, file, if_pos rfl, List.range'_succ, List.map_cons, ih (by omega)]
    · exact fun k low high => files k (by omega) (by omega)
    · intro next' named'
      exact gap next' (by rw [← named', Nat.add_assoc, Nat.add_comm 1])

theorem extension_numbered (nonempty : stem ≠ "") (plain : '/' ∉ stem.toList)
    (allowed : Allowed number) :
    (dir.join (numbered stem number)).extension = some (extensionOf number) := by
  obtain ⟨before, cut⟩ := Path.exists_cut_of_join dir
  obtain ⟨solid, parent⟩ := solid_numbered stem allowed
  have apart : '.' ∉ (extensionOf number).toList :=
    not_mem_extensionOf allowed (by decide) (by decide)
  rw [Path.extension, Path.fileName_of_cut (cut _ (slash_numbered plain allowed)) solid,
    if_neg parent, Option.bind_some, numbered, Path.splitName_append nonempty apart]

theorem withExtension_numbered (nonempty : stem ≠ "") (dots : stem ≠ ".")
    (plain : '/' ∉ stem.toList) (allowed : Allowed number) :
    (dir.join (numbered stem 1)).withExtension (extensionOf number) =
      dir.join (numbered stem number) := by
  obtain ⟨solid, parent⟩ := solid_numbered stem allowed_one
  have told : extensionOf number ≠ "" := by
    intro empty
    have three := length_extensionOf allowed
    rw [empty] at three
    cases three
  exact Path.withExtension_join nonempty dots told
    (not_mem_extensionOf allowed_one (by decide) (by decide)) (slash_numbered plain allowed_one)
    (slash_numbered plain allowed) solid parent

theorem discover_eq (nonempty : stem ≠ "") (dots : stem ≠ ".") (plain : '/' ∉ stem.toList)
    (allowed : Allowed count) (held : Holds store dir (numbered stem) count)
    (gap : count < lastNumber 4 → store.isFile (dir.join (numbered stem (count + 1))) = false) :
    discover store (dir.join (numbered stem 1)) =
      (List.range' 1 count).map fun k => dir.join (numbered stem k) := by
  obtain ⟨least, last⟩ := allowed
  obtain ⟨rest, rfl⟩ := Nat.exists_eq_add_of_le least
  have ext : (dir.join (numbered stem 1)).extension.getD "" = "E01" := by
    rw [extension_numbered nonempty plain allowed_one]
    decide
  rw [discover, ext, Nat.add_comm 1 rest, List.range'_succ, List.map_cons]
  refine congrArg _ (found_eq ?_ (fun k low high => ?_) fun next named => ?_)
  · unfold lastNumber at last
    unfold countLimit
    omega
  · have counted : Allowed k := ⟨by omega, by omega⟩
    exact ⟨extensionOf k, extensionOf?_eq_extensionOf counted,
      withExtension_numbered nonempty dots plain counted, held k (by omega) (by omega)⟩
  · rcases Nat.lt_or_eq_of_le last with more | whole
    · have counted : Allowed (2 + rest) := ⟨by omega, by omega⟩
      rw [extensionOf?_eq_extensionOf counted] at named
      cases named
      rw [withExtension_numbered nonempty dots plain counted]
      have missing := gap more
      rw [show 1 + rest + 1 = 2 + rest by omega] at missing
      exact missing
    · -- behind the last number the letters have run out
      rw [show 2 + rest = lastNumber 4 + 1 by omega] at named
      cases named

theorem discover_dot (tree : store.IsTree) (dir : Path) :
    discover store (dir.join (numbered "." 1)) = [dir.join (numbered "." 1)] := by
  obtain ⟨before, cut⟩ := Path.exists_cut_of_join dir
  have plain : '/' ∉ ".".toList := by decide
  obtain ⟨solid, parent⟩ := solid_numbered "." allowed_one
  have ext : (dir.join (numbered "." 1)).extension.getD "" = "E01" := by
    rw [extension_numbered (by decide) plain allowed_one]
    decide
  have above : ∀ next, store.isFile ((dir.join (numbered "." 1)).withExtension next) = false :=
    fun next => tree.isFile_above (Path.cut_withExtension_of_dot
      (cut _ (slash_numbered plain allowed_one)) solid parent (by decide +kernel) next)
  have none : found store (dir.join (numbered "." 1)) "E01" countLimit 2 =
      (List.range' 2 0).map fun k => dir.join (numbered "." k) :=
    found_eq (by decide) (fun k low high => absurd high (Nat.not_lt_of_le low))
      fun next _ => above next
  rw [discover, ext, none]
  rfl

/-- The parts of a set are found in the order of their numbers, with checksums by their pattern and
without by counting, except that nothing is counted for the stem `.`. -/
theorem parts_in_order (set : IsSet stem sum size count) :
    (∀ (store : FileStore) (dir : Path), store.IsTree → Holds store dir (summed stem sum) count →
      MatchesOnly store dir (summed stem sum) count →
      Wildcard.parts store (dir.join (summed stem sum 1)) = .ok ((List.range' 1 count).map fun k =>
          (dir.join (summed stem sum 1)).beside (summed stem sum k)) ∧
        ∀ k, 1 ≤ k → k ≤ count →
          store.find ((dir.join (summed stem sum 1)).beside (summed stem sum k)) =
            store.find (dir.join (summed stem sum k))) ∧
    (∀ (store : FileStore) (dir : Path), store.IsTree → Holds store dir (numbered stem) count →
      (count < lastNumber 4 → store.isFile (dir.join (numbered stem (count + 1))) = false) →
      (discover store (dir.join (numbered stem 1)) =
          (List.range' 1 count).map (fun k => dir.join (numbered stem k)) ↔
        stem ≠ "." ∨ count = 1)) := by
  refine ⟨fun store dir tree held only => ⟨set.parts_eq tree held only,
    fun k positive within => set.find_beside held positive within⟩,
    fun store dir tree held gap => ?_⟩
  by_cases dot : stem = "."
  · subst dot
    rw [discover_dot tree]
    constructor
    · intro same
      have lengths := congrArg List.length same
      rw [List.length_map, List.length_range'] at lengths
      exact .inr lengths.symm
    · rintro (other | rfl)
      · exact absurd rfl other
      · rfl
  · refine iff_of_true ?_ (.inl dot)
    exact discover_eq set.nonempty dot set.slash set.allowed held gap

theorem forall_of_two {p : Nat → Prop} (one : p 1) (two : p 2) : ∀ k, 1 ≤ k → k ≤ 2 → p k := by
  intro k positive within
  obtain rfl | rfl : k = 1 ∨ k = 2 := by omega
  · exact one
  · exact two

theorem MatchesOnly.of_two {name : Nat → String} {pattern : List Char} {listed : List String}
    (formed : pattern? (name 1).toList = some pattern)
    (lists : store.names (dir.join (name 1)).folder = .ok listed)
    (only : ∀ other ∈ listed, matching pattern other.toList = true →
      other = name 1 ∨ other = name 2) : MatchesOnly store dir name 2 := by
  refine ⟨listed, lists, ?_⟩
  intro pattern' formed' other there matched
  rw [formed] at formed'
  cases formed'
  rcases only other there matched with same | same
  · exact ⟨1, by decide, by decide, same⟩
  · exact ⟨2, by decide, by decide, same⟩

def checksum (number : Nat) : String := if number = 1 then "ef" else "cd"

theorem isSum_checksum : ∀ k, 1 ≤ k → k ≤ 2 → IsSum 2 (checksum k) :=
  forall_of_two ⟨by decide, by decide, by decide, by decide⟩
    ⟨by decide, by decide, by decide, by decide⟩

def twice : FileStore where
  entries := [
    (["work"], .directory),
    (["disk.E02.cd", "work"], .regular 0),
    (["disk.E01.ef", "work"], .regular 1),
    (["disk.E02", "work"], .regular 2),
    (["disk.E01", "work"], .regular 3)]
  contents := #[ofBytes [1], ofBytes [2], ofBytes [1], ofBytes [2]]
  workingDirectory := ["work"]

theorem parts_of_twice :
    IsSet "disk" checksum 2 2 ∧ twice.IsTree ∧ Holds twice ⟨""⟩ (summed "disk" checksum) 2 ∧
      MatchesOnly twice ⟨""⟩ (summed "disk" checksum) 2 ∧
      Wildcard.parts twice ⟨"disk.E01.ef"⟩ = .ok [⟨"./disk.E01.ef"⟩, ⟨"./disk.E02.cd"⟩] ∧
      discover twice ⟨"disk.E01"⟩ = [⟨"disk.E01"⟩, ⟨"disk.E02"⟩] := by
  have marker : FirstMarker (summed "disk" checksum 1).toList "disk".toList.length := by
    refine ⟨by decide +kernel, fun i there => Nat.le_of_not_lt fun early => ?_⟩
    have none : ∀ i < 4, ¬marker <+: (summed "disk" checksum 1).toList.drop i := by decide +kernel
    exact none i early there
  have set : IsSet "disk" checksum 2 2 :=
    ⟨by decide, by decide, ⟨by decide, by decide⟩, marker, isSum_checksum⟩
  have tree : twice.IsTree := ⟨by decide, by decide, rfl⟩
  have held : Holds twice ⟨""⟩ (summed "disk" checksum) 2 :=
    forall_of_two (by decide +kernel) (by decide +kernel)
  have held' : Holds twice ⟨""⟩ (numbered "disk") 2 :=
    forall_of_two (by decide +kernel) (by decide +kernel)
  have formed : pattern? (summed "disk" checksum 1).toList = some "disk.???.??".toList := by
    decide +kernel
  have lists : twice.names (Path.join ⟨""⟩ (summed "disk" checksum 1)).folder =
      .ok ["disk.E02.cd", "disk.E01.ef", "disk.E02", "disk.E01"] := by decide +kernel
  have only : MatchesOnly twice ⟨""⟩ (summed "disk" checksum) 2 :=
    .of_two formed lists (by decide +kernel)
  obtain ⟨searched, counted⟩ := parts_in_order set
  refine ⟨set, tree, held, only, ?_, ?_⟩
  · exact (searched twice ⟨""⟩ tree held only).1.trans (by decide +kernel)
  · have both := counted twice ⟨""⟩ tree held' fun _ => by decide +kernel
    exact (both.mpr (.inl (by decide))).trans (by decide +kernel)

def dotted : FileStore where
  entries := [
    (["work"], .directory),
    (["..E01.ef", "work"], .regular 0),
    (["..E02.cd", "work"], .regular 1),
    (["..E01", "work"], .regular 2),
    (["..E02", "work"], .regular 3)]
  contents := #[ofBytes [1], ofBytes [2], ofBytes [1], ofBytes [2]]
  workingDirectory := ["work"]

theorem parts_of_dotted :
    IsSet "." checksum 2 2 ∧ dotted.IsTree ∧ Holds dotted ⟨""⟩ (summed "." checksum) 2 ∧
      MatchesOnly dotted ⟨""⟩ (summed "." checksum) 2 ∧ Holds dotted ⟨""⟩ (numbered ".") 2 ∧
      dotted.isFile (Path.join ⟨""⟩ (numbered "." 3)) = false ∧
      Wildcard.parts dotted ⟨"..E01.ef"⟩ = .ok [⟨"./..E01.ef"⟩, ⟨"./..E02.cd"⟩] ∧
      discover dotted ⟨"..E01"⟩ = [⟨"..E01"⟩] := by
  have marker : FirstMarker (summed "." checksum 1).toList 1 := by
    refine ⟨by decide +kernel, fun i there => Nat.one_le_iff_ne_zero.mpr ?_⟩
    rintro rfl
    exact absurd there (by decide +kernel)
  have set : IsSet "." checksum 2 2 :=
    ⟨by decide, by decide, ⟨by decide, by decide⟩, marker, isSum_checksum⟩
  have tree : dotted.IsTree := ⟨by decide, by decide, rfl⟩
  have formed : pattern? ((Path.mk "..E01.ef").fileName.getD "").toList =
      some "..???.??".toList := by decide +kernel
  have lists : dotted.names (Path.mk "..E01.ef").folder =
      .ok ["..E01.ef", "..E02.cd", "..E01", "..E02"] := by decide +kernel
  refine ⟨set, tree, forall_of_two (by decide +kernel) (by decide +kernel), ?_,
    forall_of_two (by decide +kernel) (by decide +kernel), by decide +kernel, ?_, ?_⟩
  · have formed' : pattern? (summed "." checksum 1).toList = some "..???.??".toList := by
      decide +kernel
    have lists' : dotted.names (Path.join ⟨""⟩ (summed "." checksum 1)).folder =
        .ok ["..E01.ef", "..E02.cd", "..E01", "..E02"] := by decide +kernel
    exact .of_two formed' lists' (by decide +kernel)
  · exact parts_of_sorted formed lists (by decide +kernel) (by decide +kernel)
  · have first : (Path.mk "..E01") = Path.join ⟨""⟩ (numbered "." 1) := by decide +kernel
    rw [first]
    exact discover_dot tree ⟨""⟩

end EvidenceParts

end EvidencePages

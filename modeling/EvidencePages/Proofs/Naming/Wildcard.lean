import Mathlib.Data.List.Forall2
import Mathlib.Data.List.Nodup
import Mathlib.Data.Nat.Find
import EvidencePages.Proofs.Store.Listing

/-!
# What a name's pattern matches

A pattern is cut at its question marks, its pieces are taken literally and put
together again with a sign for any character but a line feed. So the question
marks that the pattern puts behind the marker take any character there, but a
line feed in a name is not matched, not even by the name's own pattern. And a
question mark that stood in the name before the marker takes any character, too.
-/

set_option autoImplicit false

namespace EvidencePages.Wildcard

/-! ## Expressions -/

inductive Atom where
  | literal (c : Char)
  | any
  deriving DecidableEq, Repr

def Atom.Takes : Atom → Char → Prop
  | .literal c, d => c = d
  | .any, d => d ≠ '\n'

/-- The pieces between the question marks of a pattern, each taken literally, put together with
`any`. -/
def expression (pattern : List Char) : List Atom :=
  [Atom.any].intercalate ((Text.pieces anyCharacter pattern).map (·.map .literal))

def Accepts (expression : List Atom) (text : List Char) : Prop :=
  List.Forall₂ Atom.Takes expression text

def atomOf (c : Char) : Atom := if c = anyCharacter then .any else .literal c

theorem atomOf_takes (p c : Char) :
    (atomOf p).Takes c ↔ if p = anyCharacter then c ≠ '\n' else p = c := by
  rw [atomOf]
  split <;> exact Iff.rfl

theorem expression_eq (pattern : List Char) : expression pattern = pattern.map atomOf := by
  induction pattern with
  | nil => rfl
  | cons c rest ih =>
    rw [expression] at ih ⊢
    rw [List.map_cons, ← ih, Text.pieces, atomOf]
    obtain ⟨piece, more, cut⟩ :=
      List.exists_cons_of_ne_nil (Text.pieces_ne_nil anyCharacter rest)
    rw [cut]
    split
    · rfl
    · cases more <;> rfl

theorem accepts_iff (pattern text : List Char) :
    Accepts (expression pattern) text ↔
      List.Forall₂ (fun p c => (atomOf p).Takes c) pattern text := by
  rw [Accepts, expression_eq, List.forall₂_map_left_iff]

theorem matching_iff (pattern name : List Char) :
    matching pattern name = true ↔ Accepts (expression pattern) name := by
  rw [accepts_iff]
  induction pattern generalizing name with
  | nil =>
    rw [List.forall₂_nil_left_iff]
    cases name with
    | nil => exact iff_of_true rfl rfl
    | cons c rest => exact iff_of_false Bool.false_ne_true (List.cons_ne_nil _ _)
  | cons p pattern ih =>
    cases name with
    | nil => exact iff_of_false Bool.false_ne_true (fun same => by cases same)
    | cons c rest =>
      rw [matching, Bool.and_eq_true, ih, List.forall₂_cons, atomOf_takes]
      refine and_congr_left fun _ => ?_
      split
      · exact decide_eq_true_iff
      · exact decide_eq_true_iff

/-! ## The first marker of a name -/

structure FirstMarker (name : List Char) (start : Nat) : Prop where
  there : marker <+: name.drop start
  first : ∀ i, marker <+: name.drop i → start ≤ i

theorem exists_firstMarker {name : List Char} (marked : marker <:+: name) :
    ∃ start, FirstMarker name start := by
  have somewhere : ∃ i, marker <+: name.drop i := by
    obtain ⟨front, back, rfl⟩ := marked
    refine ⟨front.length, back, ?_⟩
    rw [List.append_assoc, List.drop_left]
  exact ⟨Nat.find somewhere, Nat.find_spec somewhere, fun i there => Nat.find_min' somewhere there⟩

theorem FirstMarker.cutAtMarker_eq {name : List Char} {start : Nat}
    (cut : FirstMarker name start) :
    cutAtMarker name = some (name.take start, name.drop start) := by
  induction name generalizing start with
  | nil =>
    have there := cut.there
    rw [List.drop_nil] at there
    exact absurd (List.prefix_nil.mp there) (List.cons_ne_nil _ _)
  | cons c rest ih =>
    rw [cutAtMarker]
    split
    · rename_i here
      have zero : start = 0 :=
        Nat.le_zero.mp (cut.first 0 (List.isPrefixOf_iff_prefix.mp here))
      rw [zero]
      rfl
    · rename_i later
      cases start with
      | zero => exact absurd (List.isPrefixOf_iff_prefix.mpr cut.there) later
      | succ start =>
        have shifted : FirstMarker rest start :=
          ⟨cut.there, fun i there => Nat.le_of_succ_le_succ (cut.first (i + 1) there)⟩
        rw [ih shifted]
        rfl

def masked (c : Char) : Char := if c = '.' then '.' else anyCharacter

theorem FirstMarker.pattern?_eq {name : List Char} {start : Nat} (cut : FirstMarker name start) :
    pattern? name = some (name.take start ++ (name.drop start).map masked) := by
  rw [pattern?, cut.cutAtMarker_eq]
  rfl

/-! ## What the two ends of a pattern accept -/

theorem masked_takes (c d : Char) :
    (atomOf (masked c)).Takes d ↔ d ≠ '\n' ∧ (c = '.' → d = '.') := by
  rw [atomOf_takes, masked]
  by_cases dot : c = '.'
  · rw [if_pos dot, if_neg (by decide)]
    constructor
    · rintro rfl
      exact ⟨by decide, fun _ => rfl⟩
    · rintro ⟨-, same⟩
      exact (same dot).symm
  · rw [if_neg dot, if_pos rfl]
    exact ⟨fun other => ⟨other, fun same => absurd same dot⟩, And.left⟩

theorem masked_accepts_iff (tail text : List Char) :
    List.Forall₂ (fun p c => (atomOf p).Takes c) (tail.map masked) text ↔
      text.length = tail.length ∧ '\n' ∉ text ∧
        ∀ i : Nat, tail[i]? = some '.' → text[i]? = some '.' := by
  rw [List.forall₂_map_left_iff]
  induction tail generalizing text with
  | nil =>
    rw [List.forall₂_nil_left_iff]
    constructor
    · rintro rfl
      exact ⟨rfl, List.not_mem_nil, fun _ none => by cases none⟩
    · exact fun described => List.length_eq_zero_iff.mp described.1
  | cons c tail ih =>
    cases text with
    | nil =>
      refine iff_of_false (fun same => by cases same) fun described => ?_
      exact absurd described.1 (Nat.zero_ne_add_one _)
    | cons d text =>
      rw [List.forall₂_cons, masked_takes, ih, List.mem_cons, not_or]
      constructor
      · rintro ⟨⟨other, dot⟩, size, apart, dots⟩
        refine ⟨congrArg (· + 1) size, ⟨Ne.symm other, apart⟩, fun i => ?_⟩
        cases i with
        | zero => exact fun here => congrArg some (dot (Option.some.inj here))
        | succ i => exact dots i
      · rintro ⟨size, ⟨other, apart⟩, dots⟩
        refine ⟨⟨Ne.symm other, fun dot => ?_⟩, Nat.succ.inj size, apart, fun i => dots (i + 1)⟩
        exact Option.some.inj (dots 0 (congrArg some dot))

theorem literal_accepts_iff {head : List Char} (plain : anyCharacter ∉ head) (text : List Char) :
    List.Forall₂ (fun p c => (atomOf p).Takes c) head text ↔ text = head := by
  induction head generalizing text with
  | nil => exact List.forall₂_nil_left_iff
  | cons p head ih =>
    rw [List.mem_cons, not_or] at plain
    cases text with
    | nil => exact iff_of_false (fun same => by cases same) (List.cons_ne_nil _ _).symm
    | cons c text =>
      rw [List.forall₂_cons, ih plain.2, atomOf_takes, if_neg (Ne.symm plain.1), List.cons.injEq,
        eq_comm]

/-! ## What a pattern accepts -/

variable {name candidate : List Char} {start : Nat}

/-- A candidate of as many characters, the same before `start` and with all the dots behind it. -/
structure Described (name : List Char) (start : Nat) (candidate : List Char) : Prop where
  size : candidate.length = name.length
  head : candidate.take start = name.take start
  dots : ∀ i : Nat, start ≤ i → name[i]? = some '.' → candidate[i]? = some '.'

theorem FirstMarker.lt_length (cut : FirstMarker name start) : start < name.length := by
  have long := cut.there.length_le
  rw [List.length_drop] at long
  change 5 ≤ _ at long
  omega

theorem accepts_append_iff (head tail text : List Char) :
    Accepts (expression (head ++ tail)) text ↔
      List.Forall₂ (fun p c => (atomOf p).Takes c) head (text.take head.length) ∧
        List.Forall₂ (fun p c => (atomOf p).Takes c) tail (text.drop head.length) := by
  rw [accepts_iff]
  constructor
  · intro accepted
    have front := List.forall₂_take head.length accepted
    have back := List.forall₂_drop head.length accepted
    rw [List.take_left] at front
    rw [List.drop_left] at back
    exact ⟨front, back⟩
  · rintro ⟨front, back⟩
    rw [← text.take_append_drop head.length]
    exact List.rel_append front back

theorem FirstMarker.accepts_iff (cut : FirstMarker name start) {pattern : List Char}
    (formed : pattern? name = some pattern) (candidate : List Char) :
    Accepts (expression pattern) candidate ↔
      List.Forall₂ (fun p c => (atomOf p).Takes c) (name.take start) (candidate.take start) ∧
        candidate.length - start = name.length - start ∧ '\n' ∉ candidate.drop start ∧
          ∀ i : Nat, start ≤ i → name[i]? = some '.' → candidate[i]? = some '.' := by
  have within : (name.take start).length = start :=
    List.length_take_of_le (Nat.le_of_lt cut.lt_length)
  rw [cut.pattern?_eq] at formed
  cases formed
  rw [accepts_append_iff, within, masked_accepts_iff, List.length_drop, List.length_drop]
  refine and_congr_right fun _ => and_congr_right fun _ => and_congr_right fun _ => ?_
  simp only [List.getElem?_drop]
  constructor
  · intro dots i behind
    obtain ⟨k, rfl⟩ := Nat.exists_eq_add_of_le behind
    exact dots k
  · exact fun dots i => dots (start + i) (Nat.le_add_right _ _)

theorem atomOf_takes_self (c : Char) : (atomOf c).Takes c := by
  rw [atomOf_takes]
  split
  · rename_i same
    exact same ▸ by decide
  · rfl

theorem Described.accepts_iff (described : Described name start candidate)
    (cut : FirstMarker name start) {pattern : List Char} (formed : pattern? name = some pattern) :
    Accepts (expression pattern) candidate ↔ '\n' ∉ candidate.drop start := by
  rw [cut.accepts_iff formed, described.head, described.size]
  constructor
  · exact fun accepted => accepted.2.2.1
  · exact fun apart => ⟨List.forall₂_same.mpr fun c _ => atomOf_takes_self c, rfl, apart,
      described.dots⟩

theorem FirstMarker.described_of_accepts (cut : FirstMarker name start)
    (plain : anyCharacter ∉ name.take start) {pattern : List Char}
    (formed : pattern? name = some pattern) (accepted : Accepts (expression pattern) candidate) :
    Described name start candidate := by
  obtain ⟨front, size, -, dots⟩ := (cut.accepts_iff formed candidate).mp accepted
  have head := (literal_accepts_iff plain _).mp front
  refine ⟨?_, head, dots⟩
  have lengths := congrArg List.length head
  have within := cut.lt_length
  rw [List.length_take, List.length_take] at lengths
  omega

def without (old c : Char) : Char := if c = old then 'x' else c

theorem not_mem_map_without {old : Char} (other : old ≠ 'x') (text : List Char) :
    old ∉ text.map (without old) := by
  intro inside
  obtain ⟨c, -, same⟩ := List.mem_map.mp inside
  rw [without] at same
  split at same
  · exact other same.symm
  · contradiction

theorem FirstMarker.exists_accepted (cut : FirstMarker name start)
    (marked : anyCharacter ∈ name.take start) {pattern : List Char}
    (formed : pattern? name = some pattern) :
    ∃ candidate, Accepts (expression pattern) candidate ∧ ¬Described name start candidate := by
  have within : ((name.take start).map (without anyCharacter)).length = start := by
    rw [List.length_map]
    exact List.length_take_of_le (Nat.le_of_lt cut.lt_length)
  have front : ((name.take start).map (without anyCharacter) ++
      (name.drop start).map (without '\n')).take start =
        (name.take start).map (without anyCharacter) := List.take_left' within
  refine ⟨(name.take start).map (without anyCharacter) ++ (name.drop start).map (without '\n'),
    (cut.accepts_iff formed _).mpr ⟨?_, ?_, ?_, fun i behind dot => ?_⟩, fun described => ?_⟩
  · rw [front, List.forall₂_map_right_iff, List.forall₂_same]
    intro p _
    rw [atomOf_takes, without]
    split
    · decide
    · rfl
  · rw [List.length_append, within, List.length_map, List.length_drop]
    omega
  · rw [List.drop_left' within]
    exact not_mem_map_without (by decide) _
  · rw [List.getElem?_append_right (Nat.le_trans (Nat.le_of_eq within) behind), within,
      List.getElem?_map, List.getElem?_drop, Nat.add_sub_cancel' behind, dot]
    rfl
  · rw [← described.head, front] at marked
    exact not_mem_map_without (by decide) _ marked

/-! ## The files beside a path -/

variable {store : FileStore} {path : Path}

theorem parts_eq {pattern : List Char} {names : List String}
    (formed : pattern? (path.fileName.getD "").toList = some pattern)
    (listed : store.names path.folder = .ok names) :
    parts store path = .ok ((((names.filter fun other => matching pattern other.toList).map
      path.beside).filter store.isFile).mergeSort Path.le) := by
  rw [parts, formed]
  dsimp only
  rw [Path.folder] at listed
  rw [listed]
  rfl

theorem parts_of_sorted {pattern : List Char} {names : List String} {files : List Path}
    (formed : pattern? (path.fileName.getD "").toList = some pattern)
    (listed : store.names path.folder = .ok names)
    (kept : ((names.filter fun other => matching pattern other.toList).map path.beside).filter
      store.isFile = files)
    (sorted : files.Pairwise fun a b => a.le b = true) : parts store path = .ok files := by
  rw [parts_eq formed listed, kept, List.mergeSort_of_pairwise sorted]

theorem mem_parts_iff {pattern : List Char} {names : List String} {last : String}
    (formed : pattern? (path.fileName.getD "").toList = some pattern)
    (listed : store.names path.folder = .ok names) (there : last ∈ names)
    (file : store.isFile (path.beside last) = true) :
    ∃ found, parts store path = .ok found ∧
      (path.beside last ∈ found ↔ matching pattern last.toList = true) := by
  refine ⟨_, parts_eq formed listed, ?_⟩
  rw [List.mem_mergeSort, List.mem_filter, List.mem_map]
  constructor
  · rintro ⟨⟨other, kept, same⟩, -⟩
    rw [Path.join_injective path.text_folder_ne same] at kept
    exact (List.mem_filter.mp kept).2
  · exact fun matched => ⟨⟨last, List.mem_filter.mpr ⟨there, matched⟩, rfl⟩, file⟩

theorem parts_of_names {pattern : List Char} {listed names : List String}
    (formed : pattern? (path.fileName.getD "").toList = some pattern)
    (lists : store.names path.folder = .ok listed) (distinct : listed.Nodup)
    (sorted : names.Pairwise (· < ·)) (apart : ∀ name ∈ names, '/' ∉ name.toList)
    (solid : ∀ name ∈ names, Path.isBlank name = false)
    (kept : ∀ name ∈ names, name ∈ listed ∧ matching pattern name.toList = true ∧
      store.isFile (path.beside name) = true)
    (only : ∀ other ∈ listed, matching pattern other.toList = true → other ∈ names) :
    parts store path = .ok (names.map path.beside) := by
  rw [parts_eq formed lists]
  refine congrArg _ (Path.mergeSort_join path.text_folder_ne ?_ apart solid sorted)
  have once : (path.folder.join).Injective := fun _ _ same =>
    Path.join_injective path.text_folder_ne same
  have nodup : names.Nodup :=
    sorted.imp fun {a b} (less : a < b) (same : a = b) => String.lt_irrefl b (same ▸ less)
  have unique := (List.Nodup.map once
    (distinct.filter fun other => matching pattern other.toList)).filter store.isFile
  refine (List.perm_ext_iff_of_nodup unique (List.Nodup.map once nodup)).mpr fun file => ?_
  rw [List.mem_filter, List.mem_map, List.mem_map]
  constructor
  · rintro ⟨⟨other, matched, rfl⟩, -⟩
    obtain ⟨there, accepted⟩ := List.mem_filter.mp matched
    exact ⟨other, only other there accepted, rfl⟩
  · rintro ⟨name, member, rfl⟩
    obtain ⟨there, accepted, found⟩ := kept name member
    exact ⟨⟨name, List.mem_filter.mpr ⟨there, accepted⟩, rfl⟩, found⟩

/-- The pattern of a marked name accepts a name that is as the pattern describes it exactly if that
has no line feed behind the start of the marker, and it accepts no others exactly if the name has no
question mark before the marker. So the own name of a file is matched, and the file is one of its
parts, exactly if its name has no line feed there. -/
theorem accepts_described_iff (marked : marker <:+: name) :
    ∃ start, FirstMarker name start ∧ ∃ pattern, pattern? name = some pattern ∧
      (∀ candidate, matching pattern candidate = true ↔ Accepts (expression pattern) candidate) ∧
      (∀ candidate, Described name start candidate →
        (Accepts (expression pattern) candidate ↔ '\n' ∉ candidate.drop start)) ∧
      ((∀ candidate, Accepts (expression pattern) candidate → Described name start candidate) ↔
        anyCharacter ∉ name.take start) ∧
      (Accepts (expression pattern) name ↔ '\n' ∉ name.drop start) ∧
      (∀ (store : FileStore) (path : Path) (listed : List String),
        path.fileName = some (String.ofList name) → store.isFile path = true →
        store.names path.folder = .ok listed →
        ∃ found, parts store path = .ok found ∧
          store.find (path.beside (String.ofList name)) = store.find path ∧
          (path.beside (String.ofList name) ∈ found ↔ '\n' ∉ name.drop start)) := by
  obtain ⟨start, cut⟩ := exists_firstMarker marked
  obtain ⟨pattern, formed⟩ : ∃ pattern, pattern? name = some pattern := ⟨_, cut.pattern?_eq⟩
  have own : Described name start name := ⟨rfl, rfl, fun _ _ dot => dot⟩
  refine ⟨start, cut, pattern, formed, matching_iff pattern, fun candidate described =>
    described.accepts_iff cut formed, ⟨fun sound => ?_, fun plain candidate accepted =>
    cut.described_of_accepts plain formed accepted⟩, own.accepts_iff cut formed,
    fun store path listed named file lists => ?_⟩
  · intro inside
    obtain ⟨candidate, accepted, other⟩ := cut.exists_accepted inside formed
    exact other (sound candidate accepted)
  · obtain ⟨found, there⟩ := FileStore.isFile_iff.mp file
    obtain ⟨before, pieces, solid, parent⟩ :=
      Path.cut_of_fileName named (FileStore.endsInName_of_find there fun same => by cases same)
    have beside := FileStore.find_beside pieces solid parent there
    have apart : '/' ∉ (String.ofList name).toList :=
      Text.not_mem_of_mem_cut (pieces ▸ List.mem_append_right _ List.mem_cons_self)
    have inside := FileStore.mem_names_of_find path.text_folder_ne apart solid parent beside lists
    have told : (path.fileName.getD "").toList = name := by
      rw [named, Option.getD_some, String.toList_ofList]
    obtain ⟨parts, eq, member⟩ :=
      mem_parts_iff (told ▸ formed) lists inside (FileStore.isFile_iff.mpr ⟨found, beside⟩)
    refine ⟨parts, eq, beside.trans there.symm, ?_⟩
    rw [member, String.toList_ofList, matching_iff, own.accepts_iff cut formed]

def checksummed : FileStore where
  entries := [
    (["work"], .directory),
    (["disk.E02.cd", "work"], .regular 0),
    (["disk.E01.ab", "work"], .regular 1)]
  contents := #[ofBytes [1], ofBytes [2]]
  workingDirectory := ["work"]

/-- The pattern of the first part accepts both names, and the first part is listed. -/
theorem accepts_checksummed :
    marker <:+: "disk.E01.ab".toList ∧ checksummed.isFile ⟨"disk.E01.ab"⟩ = true ∧
      checksummed.names (Path.mk "disk.E01.ab").folder = .ok ["disk.E02.cd", "disk.E01.ab"] ∧
      ∃ pattern, pattern? "disk.E01.ab".toList = some pattern ∧
        Accepts (expression pattern) "disk.E02.cd".toList ∧
        (∀ candidate, Accepts (expression pattern) candidate →
          Described "disk.E01.ab".toList 4 candidate) ∧
        ∃ found, parts checksummed ⟨"disk.E01.ab"⟩ = .ok found ∧ ⟨"./disk.E01.ab"⟩ ∈ found := by
  have marked : marker <:+: "disk.E01.ab".toList :=
    ⟨"disk".toList, "ab".toList, by decide⟩
  obtain ⟨start, cut, pattern, formed, -, accepts, sound, -, listed⟩ :=
    accepts_described_iff marked
  have four : start = 4 := by
    have ends : cutAtMarker "disk.E01.ab".toList = some ("disk".toList, ".E01.ab".toList) := by
      decide
    rw [cut.cutAtMarker_eq] at ends
    have front := congrArg List.length (Prod.mk.inj (Option.some.inj ends)).1
    rw [List.length_take_of_le (Nat.le_of_lt cut.lt_length)] at front
    exact front
  subst four
  have other : Described "disk.E01.ab".toList 4 "disk.E02.cd".toList := by
    refine ⟨by decide, by decide, fun i behind dot => ?_⟩
    have within : i < 11 := (List.getElem?_eq_some_iff.mp dot).1
    have dots : ∀ i < 11, 4 ≤ i → "disk.E01.ab".toList[i]? = some '.' →
        "disk.E02.cd".toList[i]? = some '.' := by decide
    exact dots i within behind dot
  have file : checksummed.isFile ⟨"disk.E01.ab"⟩ = true := by decide +kernel
  have lists : checksummed.names (Path.mk "disk.E01.ab").folder =
      .ok ["disk.E02.cd", "disk.E01.ab"] := by decide +kernel
  obtain ⟨found, eq, -, member⟩ :=
    listed checksummed ⟨"disk.E01.ab"⟩ _ (by decide +kernel) file lists
  exact ⟨marked, file, lists, pattern, formed, (accepts _ other).mpr (by decide),
    sound.mpr (by decide), found, eq, member.mpr (by decide)⟩

/-- The pattern of a name with a question mark, a second name that it accepts, and a name with a
line feed that its own pattern does not accept. -/
def misread : FileStore where
  entries := [
    (["work"], .directory),
    (["a?.E01.x", "work"], .regular 0),
    (["ab.E01.y", "work"], .regular 1),
    (["disk.E01.1\n2", "work"], .regular 2)]
  contents := #[ofBytes [1], ofBytes [2], ofBytes [3]]
  workingDirectory := ["work"]

theorem parts_misread :
    misread.isFile ⟨"a?.E01.x"⟩ = true ∧ misread.isFile ⟨"disk.E01.1\n2"⟩ = true ∧
      parts misread ⟨"a?.E01.x"⟩ = .ok [⟨"./a?.E01.x"⟩, ⟨"./ab.E01.y"⟩] ∧
      pattern? "disk.E01.1\n2".toList = some "disk.???.???".toList ∧
      ¬Accepts (expression "disk.???.???".toList) "disk.E01.1\n2".toList ∧
      parts misread ⟨"disk.E01.1\n2"⟩ = .ok [] := by
  have listed : ∀ path : Path, path.folder = ⟨"."⟩ →
      misread.names path.folder = .ok ["a?.E01.x", "ab.E01.y", "disk.E01.1\n2"] := by
    intro path here
    rw [here]
    rfl
  have marked : pattern? ((Path.mk "a?.E01.x").fileName.getD "").toList =
      some "a?.???.?".toList := by decide +kernel
  have broken : pattern? ((Path.mk "disk.E01.1\n2").fileName.getD "").toList =
      some "disk.???.???".toList := by decide +kernel
  refine ⟨by decide +kernel, by decide +kernel, ?_, by decide, ?_, ?_⟩
  · exact parts_of_sorted marked (listed _ (by decide +kernel)) (by decide +kernel)
      (by decide +kernel)
  · rw [← matching_iff]
    decide
  · exact parts_of_sorted broken (listed _ (by decide +kernel)) (by decide +kernel)
      List.Pairwise.nil

end EvidencePages.Wildcard

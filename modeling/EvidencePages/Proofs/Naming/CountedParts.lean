import EvidencePages.Proofs.Naming.SplitName

/-!
# Counted parts of an evidence file

Discovery counts the names behind the first one's and takes them as long as
regular files have them. The letters run out before the count does, so it is
always a name without a file that ends the list, or the end of the scheme. The
names are those of the first part's siblings, unless its stem is a single dot:
then they are counted from another name and none of the siblings is found.
-/

set_option autoImplicit false

namespace EvidencePages

/-! ## Letters -/

theorem letter_of_upperLetter? {c : Char} {index : Nat} (told : upperLetter? c = some index) :
    ∃ upper, c = letter upper index ∧ index < 26 := by
  have back : ∀ base : Char, base ≤ c → base.toNat + (c.toNat - base.toNat) = c.toNat :=
    fun base le => Nat.add_sub_cancel' le
  rw [upperLetter?] at told
  split at told
  · rename_i range
    cases told
    refine ⟨true, ?_, ?_⟩
    · rw [letter, if_pos rfl, back 'A' range.1, Char.ofNat_toNat]
    · have upTo : c.toNat ≤ 'Z'.toNat := range.2
      change c.toNat - 65 < 26
      change c.toNat ≤ 90 at upTo
      omega
  split at told
  · rename_i range
    cases told
    refine ⟨false, ?_, ?_⟩
    · rw [letter, if_neg Bool.false_ne_true, back 'a' range.1, Char.ofNat_toNat]
    · have upTo : c.toNat ≤ 'z'.toNat := range.2
      change c.toNat - 97 < 26
      change c.toNat ≤ 122 at upTo
      omega
  · cases told

namespace PartExtension

theorem extensionOf?_past_letters (first : String) :
    EvidenceParts.extensionOf? first 17676 = none := by
  rw [EvidenceParts.extensionOf?]
  cases chars : first.toList with
  | nil => rw [partExtension, chars]
  | cons lead rest =>
    cases told : upperLetter? lead with
    | none => rw [partExtension, chars]; dsimp only; rw [told]
    | some index =>
      obtain ⟨upper, rfl, small⟩ := letter_of_upperLetter? told
      have same : (UInt32.ofNat 17676).toNat = 17676 := rfl
      have late : ¬(1 ≤ 17676 ∧ 17676 ≤ lastNumber index) := by
        unfold lastNumber
        omega
      rw [partExtension_eq small chars, same, if_neg late]
      by_cases beyond : Overflows index 17676
      · rw [if_pos beyond]
      · rw [if_neg beyond]

theorem eq_of_spelled_eq {upper : Bool} {index low high : Nat} (early : low ≤ lastNumber index)
    (early' : high ≤ lastNumber index) (same : spelled upper index low = spelled upper index high) :
    low = high := by
  rcases Nat.lt_trichotomy low high with less | equal | less
  · have order : spelled upper index low < spelled upper index high := spelled_lt upper less early'
    rw [same] at order
    exact absurd order (List.lt_irrefl _)
  · exact equal
  · have order : spelled upper index high < spelled upper index low := spelled_lt upper less early
    rw [same] at order
    exact absurd order (List.lt_irrefl _)

end PartExtension

namespace EvidenceParts

open PartExtension

variable {store : FileStore} {first : Path}

/-! ## Counting up to a gap -/

/-- The extension of a part of the set that `first` starts. -/
def extension? (first : Path) (number : Nat) : Option String :=
  extensionOf? (first.extension.getD "") number

def candidate (first : Path) (number : Nat) : Path :=
  first.withExtension ((extension? first number).getD "")

/-- There is an extension for the number, and a regular file with it. -/
def Follows (store : FileStore) (first : Path) (number : Nat) : Prop :=
  (extension? first number).isSome = true ∧ store.isFile (candidate first number) = true

theorem exists_discover_eq (store : FileStore) (first : Path) :
    ∃ stop, Run (Follows store first) 2 (2 + countLimit) stop ∧ stop < 2 + countLimit ∧
      discover store first = first :: (List.range' 2 (stop - 2)).map (candidate first) := by
  obtain ⟨stop, run⟩ := Run.exists_stop (Follows store first) 2 countLimit
  have limit : countLimit = 17675 := rfl
  have before : stop < 2 + countLimit := by
    refine Nat.lt_of_not_le fun reached => ?_
    obtain ⟨named, -⟩ := run.each 17676 (by decide) (by omega)
    rw [extension?, extensionOf?_past_letters] at named
    cases named
  have start := run.start
  refine ⟨stop, run, before, congrArg _ (found_eq (by omega) (fun number low high => ?_) ?_)⟩
  · obtain ⟨named, file⟩ := run.each number low (by omega)
    obtain ⟨next, same⟩ := Option.isSome_iff_exists.mp named
    refine ⟨next, same, ?_, file⟩
    rw [candidate, same]
    rfl
  · intro next named
    rw [Nat.add_sub_cancel' start] at named
    refine Bool.eq_false_iff.mpr fun file => run.gap before ⟨?_, ?_⟩
    · rw [extension?, named]
      rfl
    · rw [candidate, extension?, named]
      exact file

end EvidenceParts

/-! ## Siblings -/

namespace Path

variable {path : Path} {before : List String} {name ext : String}

def stem (path : Path) : String := (path.fileName.map fun name => (splitName name).1).getD ""

def sibling (path : Path) (name : String) : Path :=
  match path.located with
  | none => path
  | some (before, _) => ofPieces (before ++ [name])

theorem lastComponent_of_located (located : path.located = some (before, name)) :
    path.lastComponent = some (before, name) ∧ name ≠ ".." := by
  rw [Path.located] at located
  split at located
  · cases located
  · split at located
    · cases located
    · rename_i last parent
      cases located
      exact ⟨last, parent⟩

theorem located_of_extension (told : path.extension = some ext) :
    ∃ before, path.located = some (before, path.stem ++ "." ++ ext) ∧ path.stem ≠ "" := by
  rw [extension, fileName] at told
  cases located : path.located with
  | none => simp [located] at told
  | some found =>
    obtain ⟨before, name⟩ := found
    have own : path.stem = (splitName name).1 := by simp [stem, fileName, located]
    have split : (splitName name).2 = some ext := by simpa [located] using told
    obtain ⟨some, whole⟩ := splitName_of_extension split
    rw [own, ← whole]
    exact ⟨before, rfl, some⟩

theorem withExtension_eq_sibling (located : path.located = some (before, name)) {next : String}
    (told : next ≠ "") (plain : path.stem ≠ "." ∨ path.endsInName = false) :
    path.withExtension next = path.sibling (path.stem ++ "." ++ next) := by
  have own : path.stem = (splitName name).1 := by simp [stem, fileName, located]
  rw [own] at plain ⊢
  rcases plain with other | open_end
  · simp [withExtension, sibling, located, renamed, told, other]
  · simp [withExtension, sibling, located, renamed, told, open_end]

theorem cut_sibling (located : path.located = some (before, name)) {other : String}
    (apart : '/' ∉ other.toList) : Text.cut '/' (path.sibling other).text = before ++ [other] := by
  obtain ⟨last, -⟩ := lastComponent_of_located located
  obtain ⟨-, blanks, cut, -⟩ := cut_of_lastComponent last
  have own : path.sibling other = ofPieces (before ++ [other]) := by rw [sibling, located]
  rw [own]
  refine Text.cut_eq (by simp) (fun component listed => ?_) (toList_ofPieces _)
  rcases List.mem_append.mp listed with early | late
  · exact Text.not_mem_of_mem_cut (cut ▸ List.mem_append_left _ early)
  · exact List.mem_singleton.mp late ▸ apart

theorem components_of_located (located : path.located = some (before, name)) :
    path.components = above before ++ [name] := by
  obtain ⟨last, -⟩ := lastComponent_of_located located
  obtain ⟨solid, blanks, cut, blank⟩ := cut_of_lastComponent last
  exact components_of_cut cut solid blank

end Path

namespace EvidenceParts

open PartExtension

variable {store : FileStore} {first : Path} {upper : Bool} {index number : Nat}

def partAt (first : Path) (number : Nat) : Path :=
  first.sibling (first.stem ++ "." ++ (extension? first number).getD "")

structure Begins (first : Path) (before : List String) (upper : Bool) (index : Nat) : Prop where
  small : index < 26
  located : first.located =
    some (before, first.stem ++ "." ++ String.ofList (spelled upper index 1))
  nonempty : first.stem ≠ ""
  named : ∀ number, 1 ≤ number → number ≤ lastNumber index →
    extension? first number = some (String.ofList (spelled upper index number))
  ends : extension? first (lastNumber index + 1) = none

theorem exists_begins {ext : String} (small : index < 26) (told : first.extension = some ext)
    (lead : ext.toList = [letter upper index, '0', '1']) :
    ∃ before, Begins first before upper index := by
  obtain ⟨before, located, nonempty⟩ := Path.located_of_extension told
  have one : ext = String.ofList (spelled upper index 1) := by
    refine String.toList_inj.mp ?_
    rw [lead, String.toList_ofList]
    rfl
  refine ⟨before, small, one ▸ located, nonempty, fun number low high => ?_, ?_⟩
  · rw [extension?, told, Option.getD_some, extensionOf?_eq small lead (by omega),
      if_pos ⟨low, high⟩]
  · rw [extension?, told, Option.getD_some, extensionOf?_eq small lead (Nat.le_refl _),
      if_neg fun both => absurd both.2 (Nat.not_succ_le_self _)]

namespace Begins

variable {before : List String} (begins : Begins first before upper index)

include begins

theorem slash_name (high : number ≤ lastNumber index) :
    '/' ∉ (first.stem ++ "." ++ String.ofList (spelled upper index number)).toList := by
  obtain ⟨last, -⟩ := Path.lastComponent_of_located begins.located
  obtain ⟨-, blanks, cut, -⟩ := Path.cut_of_lastComponent last
  have whole : '/' ∉ (first.stem ++ "." ++ String.ofList (spelled upper index 1)).toList :=
    Text.not_mem_of_mem_cut (cut ▸ List.mem_append_right _ List.mem_cons_self)
  have plain : '/' ∉ spelled upper index number := by
    intro inside
    rcases (shaped_spelled upper begins.small high).each '/' inside with digit | alpha
    · exact absurd digit (by decide)
    · exact absurd alpha.1 (by decide)
  simp only [String.toList_append, String.toList_ofList, List.mem_append, not_or] at whole ⊢
  exact ⟨whole.1, plain⟩

theorem candidate_eq (plain : first.stem ≠ "." ∨ first.endsInName = false) (low : 1 ≤ number)
    (high : number ≤ lastNumber index) : candidate first number = partAt first number := by
  rw [candidate, partAt, begins.named number low high]
  refine Path.withExtension_eq_sibling begins.located (fun empty => ?_) plain
  have three := (shaped_spelled upper begins.small high).three
  have none : spelled upper index number = [] := by simpa using congrArg String.toList empty
  rw [none] at three
  cases three

theorem components_partAt (low : 1 ≤ number) (high : number ≤ lastNumber index) :
    (partAt first number).components = Path.above before ++
      [first.stem ++ "." ++ String.ofList (spelled upper index number)] := by
  have long :
      2 < (first.stem ++ "." ++ String.ofList (spelled upper index number)).toList.length := by
    have three := (shaped_spelled upper begins.small high).three
    simp only [String.toList_append, String.toList_ofList, List.length_append, three]
    omega
  rw [partAt, begins.named number low high, Option.getD_some]
  exact Path.components_of_cut (Path.cut_sibling begins.located (begins.slash_name high))
    (solid_of_length long).1 (List.forall_mem_nil _)

theorem nodup_components {count : Nat} (upTo : count < lastNumber index) :
    ((first :: (List.range' 2 count).map (partAt first)).map Path.components).Nodup := by
  have own : first.components = Path.above before ++
      [first.stem ++ "." ++ String.ofList (spelled upper index 1)] :=
    Path.components_of_located begins.located
  have all : (first :: (List.range' 2 count).map (partAt first)).map Path.components =
      (List.range' 1 (count + 1)).map fun number => Path.above before ++
        [first.stem ++ "." ++ String.ofList (spelled upper index number)] := by
    rw [List.range'_succ, List.map_cons, List.map_cons, own, List.map_map]
    refine congrArg _ (List.map_congr_left fun number listed => ?_)
    obtain ⟨low, high⟩ := List.mem_range'_1.mp listed
    rw [Function.comp_apply, begins.components_partAt (by omega) (by omega)]
  rw [all]
  refine (List.nodup_range' 1).map_on fun low listed high listed' same => ?_
  have upper_low := (List.mem_range'_1.mp listed).2
  have upper_high := (List.mem_range'_1.mp listed').2
  have spelling : spelled upper index low = spelled upper index high :=
    String.ofList_injective (by simpa using same)
  exact eq_of_spelled_eq (by omega) (by omega) spelling

/-- The files that follow are the siblings that are files, unless the stem is a dot. -/
theorem run_siblings (plain : first.stem ≠ "." ∨ first.endsInName = false) {limit stop : Nat}
    (run : Run (Follows store first) 2 limit stop) (more : stop < limit) :
    Run (fun number => store.isFile (partAt first number) = true) 2 (lastNumber index + 1)
      stop := by
  have within : stop ≤ lastNumber index + 1 := by
    refine Nat.le_of_not_lt fun past => ?_
    obtain ⟨named, -⟩ := run.each _ (by unfold lastNumber; omega) past
    rw [begins.ends] at named
    cases named
  refine ⟨run.start, within, fun number low high => ?_, fun before file => ?_⟩
  · rw [← begins.candidate_eq plain (by omega) (by omega)]
    exact (run.each number low high).2
  · have start := run.start
    rw [← begins.candidate_eq plain (by omega) (by omega)] at file
    refine run.gap more ⟨?_, file⟩
    rw [begins.named stop (by omega) (by omega)]
    rfl

theorem not_follows_of_dot (tree : store.IsTree) (dot : first.stem = ".")
    (ends : first.endsInName = true) (number : Nat) : ¬Follows store first number := by
  rintro ⟨-, file⟩
  obtain ⟨last, parent⟩ := Path.lastComponent_of_located begins.located
  obtain ⟨front, name, cut, solid⟩ := Path.exists_cut_of_endsInName ends
  have same := Path.lastComponent_of_cut cut solid
  rw [last] at same
  cases same
  have split : (Path.splitName (first.stem ++ "." ++
      String.ofList (spelled upper index 1))).1 = "." := by
    rw [Path.splitName_append begins.nonempty, dot]
    rw [String.toList_ofList]
    intro inside
    have early : 1 ≤ lastNumber index := by unfold lastNumber; omega
    rcases (shaped_spelled upper begins.small early).each '.' inside with digit | alpha
    · exact absurd digit (by decide)
    · exact absurd alpha.1 (by decide)
  have above := tree.isFile_above (Path.cut_withExtension_of_dot cut solid parent split
    ((extension? first number).getD ""))
  rw [candidate, above] at file
  cases file

theorem discover_of_dot (tree : store.IsTree) (dot : first.stem = ".")
    (ends : first.endsInName = true) : discover store first = [first] := by
  obtain ⟨counted, run, -, found⟩ := exists_discover_eq store first
  have none : counted = 2 :=
    Run.unique (.empty (by omega) (begins.not_follows_of_dot tree dot ends 2)) run
  rw [found, none]
  rfl

theorem exists_discover_siblings (plain : first.stem ≠ "." ∨ first.endsInName = false) :
    ∃ stop, Run (fun number => store.isFile (partAt first number) = true) 2
        (lastNumber index + 1) stop ∧
      discover store first = first :: (List.range' 2 (stop - 2)).map (partAt first) := by
  obtain ⟨stop, run, more, found⟩ := exists_discover_eq store first
  have siblings := begins.run_siblings plain run more
  have last := siblings.stop_le
  refine ⟨stop, siblings, ?_⟩
  rw [found]
  refine congrArg _ (List.map_congr_left fun number listed => ?_)
  obtain ⟨low, high⟩ := List.mem_range'_1.mp listed
  exact begins.candidate_eq plain (by omega) (by omega)

end Begins

/-- The siblings that have the next numbers are found up to the first that is no file, or up to the
last number, just when the stem is not a dot, and no path is found twice. With a dot for its stem
the first part is found alone. -/
theorem siblings_counted_iff {ext : String} (tree : store.IsTree) (small : index < 26)
    (told : first.extension = some ext) (lead : ext.toList = [letter upper index, '0', '1']) :
    ∃ stop, Run (fun number => store.isFile (partAt first number) = true) 2
        (lastNumber index + 1) stop ∧
      (discover store first = first :: (List.range' 2 (stop - 2)).map (partAt first) ↔
        first.stem ≠ "." ∨ first.endsInName = false ∨ stop = 2) ∧
      (first.stem = "." → first.endsInName = true → discover store first = [first]) ∧
      ((discover store first).map Path.components).Nodup := by
  obtain ⟨before, begins⟩ := exists_begins small told lead
  by_cases dot : first.stem = "." ∧ first.endsInName = true
  · have alone := begins.discover_of_dot tree dot.1 dot.2
    have room : 2 ≤ lastNumber index + 1 := by unfold lastNumber; omega
    obtain ⟨stop, siblings⟩ := Run.exists_stop
      (fun number => store.isFile (partAt first number) = true) 2 (lastNumber index + 1 - 2)
    rw [Nat.add_sub_cancel' room] at siblings
    refine ⟨stop, siblings, ?_, fun _ _ => alone, by simp [alone]⟩
    have start := siblings.start
    simp only [alone, dot, ne_eq, not_true, Bool.true_eq_false, false_or, List.cons.injEq, true_and,
      List.nil_eq, List.map_eq_nil_iff, List.range'_eq_nil_iff]
    omega
  · have plain : first.stem ≠ "." ∨ first.endsInName = false := by
      by_cases other : first.stem = "."
      · exact .inr (Bool.eq_false_iff.mpr fun ends => dot ⟨other, ends⟩)
      · exact .inl other
    obtain ⟨stop, siblings, whole⟩ := begins.exists_discover_siblings plain
    refine ⟨stop, siblings, iff_of_true whole (plain.imp id .inl),
      fun same ends => absurd ⟨same, ends⟩ dot, ?_⟩
    rw [whole]
    have last := siblings.stop_le
    exact begins.nodup_components (by unfold lastNumber at *; omega)

/-- Two sets of lower case, each of which goes on after a missing part, the second with a dot for
its stem. -/
def gapped : FileStore where
  entries := [
    (["work"], .directory),
    (["set", "work"], .directory),
    (["a.e01", "set", "work"], .regular 0),
    (["a.e02", "set", "work"], .regular 1),
    (["a.e04", "set", "work"], .regular 2),
    (["..e01", "set", "work"], .regular 0),
    (["..e02", "set", "work"], .regular 1),
    (["..e04", "set", "work"], .regular 2)]
  contents := #[ofBytes [1], ofBytes [2], ofBytes [4]]
  workingDirectory := ["work"]

theorem isTree_gapped : gapped.IsTree := ⟨by decide +kernel, by decide +kernel, rfl⟩

theorem run_gapped {first : Path} (file : gapped.isFile (partAt first 2) = true)
    (missing : gapped.isFile (partAt first 3) = false) :
    Run (fun number => gapped.isFile (partAt first number) = true) 2 (lastNumber 4 + 1) 3 := by
  refine ⟨by decide, by decide, fun number low high => ?_, fun _ => by simp [missing]⟩
  obtain rfl : number = 2 := by omega
  exact file

theorem siblings_of_gapped :
    gapped.IsTree ∧ 4 < 26 ∧ (Path.mk "set/a.e01").extension = some "e01" ∧
      "e01".toList = [letter false 4, '0', '1'] ∧
      discover gapped ⟨"set/a.e01"⟩ = [⟨"set/a.e01"⟩, ⟨"set/a.e02"⟩] := by
  have told : (Path.mk "set/a.e01").extension = some "e01" := by decide +kernel
  obtain ⟨stop, run, counted_iff, -, -⟩ :=
    siblings_counted_iff isTree_gapped (show 4 < 26 by decide) told
      (show "e01".toList = [letter false 4, '0', '1'] by decide)
  obtain rfl := (run_gapped (by decide +kernel) (by decide +kernel)).unique run
  refine ⟨isTree_gapped, by decide, told, by decide, ?_⟩
  exact (counted_iff.mpr (.inl (by decide +kernel))).trans (by decide +kernel)

/-- The sibling of a name of a dot and an extension is a file, and it is not found. -/
theorem sibling_missed_of_gapped :
    (Path.mk "set/..e01").extension = some "e01" ∧
      Run (fun number => gapped.isFile (partAt ⟨"set/..e01"⟩ number) = true) 2
        (lastNumber 4 + 1) 3 ∧
      partAt ⟨"set/..e01"⟩ 2 = ⟨"set/..e02"⟩ ∧
      discover gapped ⟨"set/..e01"⟩ = [⟨"set/..e01"⟩] :=
  ⟨by decide +kernel, run_gapped (by decide +kernel) (by decide +kernel), by decide +kernel,
    by decide +kernel⟩

end EvidenceParts

end EvidencePages

import Mathlib.Data.List.Perm.Subperm
import EvidencePages.Naming.SplitName
import EvidencePages.Proofs.Naming.PartOrder
import EvidencePages.Proofs.Runs
import EvidencePages.Proofs.Store.PositionedRead

/-!
# Numbered names of a split image

The first part's name gives a name for every number, with the digits in the
place where its own stand. No two of these names are one path, and the first
part's own is among them. So the parts behind it are those with the numbers
up to the first that cannot be opened, and a store with fewer entries than
there are numbers has such a one.
-/

set_option autoImplicit false

namespace EvidencePages

/-! ## Paths that can be opened -/

def FileStore.Opens (store : FileStore) (path : Path) : Prop :=
  ∃ handle, store.openFile path = .ok handle

theorem FileStore.Opens.find {store : FileStore} {path : Path} (opens : store.Opens path) :
    ∃ node, store.find path = .ok node := by
  obtain ⟨handle, success⟩ := opens
  exact exists_find_of_openFile success

namespace SplitName

variable {path : Path} {name : SplitName} {store : FileStore}

/-! ## Numbers in names -/

theorem ofDigitChars_padded (number : Nat) : Nat.ofDigitChars 10 (padded number) 0 = number := by
  have zeros : ∀ count, Nat.ofDigitChars 10 (List.replicate count '0') 0 = 0 := by
    intro count
    induction count with
    | zero => rfl
    | succ count ih => simpa [List.replicate_succ, Nat.ofDigitChars] using ih
  rw [padded, List.leftpad, Nat.ofDigitChars_append, zeros]
  simp

theorem padded_injective {a b : Nat} (same : padded a = padded b) : a = b := by
  rw [← ofDigitChars_padded a, same, ofDigitChars_padded]

theorem length_padded (number : Nat) : 3 ≤ (padded number).length := by
  rw [padded, List.length_leftpad]
  exact Nat.le_max_left _ _

theorem isDigit_of_mem_padded {number : Nat} {c : Char} (inside : c ∈ padded number) :
    c.isDigit = true := by
  rw [padded, List.leftpad, List.mem_append] at inside
  rcases inside with zero | own
  · rw [List.eq_of_mem_replicate zero]
    rfl
  · exact Nat.isDigit_of_mem_toDigits (by decide) (by decide) own

theorem splitEndings_plain : ∀ ending ∈ splitEndings,
    ending.digits = padded ending.number ∧ '/' ∉ ending.tail := by
  decide

/-! ## Names made from a first part -/

theorem isFirstPart_iff (path : Path) : isFirstPart path = true ↔ (ofPath? path).isSome = true := by
  rw [isFirstPart, List.any_eq_true, ← List.find?_isSome, ofPath?]
  cases splitEndings.find? fun ending => ending.ends path.text.toList <;> simp

/-- A name made from a first part's path with the ending that tells it. -/
structure MadeFrom (path : Path) (name : SplitName) (ending : SplitEnding) : Prop where
  listed : ending ∈ splitEndings
  text : path.text.toList = name.before ++ ending.digits ++ ending.tail
  after : name.after = ending.tail
  next : name.next = ending.number + 1

theorem exists_madeFrom (made : ofPath? path = some name) :
    ∃ ending, MadeFrom path name ending := by
  rw [ofPath?] at made
  split at made
  · cases made
  rename_i ending found
  cases made
  have ends : ending.ends path.text.toList = true := by simpa using List.find?_some found
  obtain ⟨front, whole⟩ := List.isSuffixOf_iff_suffix.mp ends
  refine ⟨ending, List.mem_of_find?_eq_some found, ?_, rfl, rfl⟩
  have split : path.text.toList = front ++ ending.lead ++ (ending.digits ++ ending.tail) := by
    rw [← whole, SplitEnding.text]
    simp only [List.append_assoc]
  have size : path.text.toList.length - (ending.digits.length + ending.tail.length) =
      (front ++ ending.lead).length := by
    rw [split]
    simp only [List.length_append]
    omega
  rw [size, split, List.take_left]
  simp only [List.append_assoc]

namespace MadeFrom

variable {ending : SplitEnding} (made : MadeFrom path name ending)

include made

theorem next_pos : 0 < name.next := made.next ▸ Nat.succ_pos _

theorem next_lt : name.next < numberLimit := by
  have small : ∀ ending ∈ splitEndings, ending.number + 1 < numberLimit := by decide
  exact made.next ▸ small ending made.listed

theorem pathOf_first : name.pathOf (name.next - 1) = path := by
  obtain ⟨digits, -⟩ := splitEndings_plain ending made.listed
  rw [pathOf, made.next, Nat.add_sub_cancel, ← digits, made.after, ← made.text,
    String.ofList_toList]

theorem exists_cut_pathOf : ∃ (before : List String) (last : Nat → String),
    (∀ a b, last a = last b → a = b) ∧
      ∀ number, Text.cut '/' (name.pathOf number).text = before ++ [last number] ∧
        Path.isBlank (last number) = false ∧ last number ≠ ".." := by
  obtain ⟨before, tip, cut⟩ := Text.exists_cut_append '/' name.before
  have plain : ∀ number, '/' ∉ padded number ++ name.after := by
    intro number inside
    rcases List.mem_append.mp inside with digit | tail
    · exact absurd (isDigit_of_mem_padded digit) (by decide)
    · exact (splitEndings_plain ending made.listed).2 (made.after ▸ tail)
  refine ⟨before, fun number => String.ofList (tip ++ (padded number ++ name.after)), ?_, ?_⟩
  · intro a b same
    have chars := List.append_cancel_left (String.ofList_injective same)
    exact padded_injective (List.append_cancel_right chars)
  · intro number
    refine ⟨?_, EvidenceParts.solid_of_length ?_⟩
    · rw [pathOf, List.append_assoc]
      exact cut _ (plain number)
    · have digits := length_padded number
      simp only [String.toList_ofList, List.length_append]
      omega

theorem pathOf_injective {a b : Nat}
    (same : (name.pathOf a).components = (name.pathOf b).components) : a = b := by
  obtain ⟨before, last, injective, cut⟩ := made.exists_cut_pathOf
  have components : ∀ number,
      (name.pathOf number).components = Path.above before ++ [last number] :=
    fun number => Path.components_of_cut (cut number).1 (cut number).2.1 (List.forall_mem_nil _)
  rw [components, components] at same
  exact injective a b (List.singleton_inj.mp (List.append_cancel_left same))

end MadeFrom

/-! ## The parts that are found -/

theorem found_eq {count number stop : Nat}
    (run : Run (fun k => store.Opens (name.pathOf k)) number (number + count) stop) :
    name.found store count number = (List.range' number (stop - number)).map name.pathOf := by
  induction count generalizing number with
  | zero =>
    have none : stop - number = 0 := Nat.sub_eq_zero_of_le run.stop_le
    rw [found, none]
    rfl
  | succ count ih =>
    rw [found]
    by_cases more : number < stop
    · obtain ⟨handle, success⟩ := run.each number (Nat.le_refl _) more
      have later := run.tail more
      rw [← Nat.add_assoc, Nat.add_right_comm] at later
      have length : stop - number = stop - (number + 1) + 1 := by omega
      rw [success, length, List.range'_succ, List.map_cons, ← ih later]
    · obtain rfl : stop = number := Nat.le_antisymm (Nat.le_of_not_lt more) run.start
      have closed := run.gap (by omega)
      rw [Nat.sub_self]
      cases failed : store.openFile (name.pathOf stop) with
      | error cause => rfl
      | ok handle => exact absurd ⟨handle, failed⟩ closed

theorem exists_laterParts_eq (fits : name.next ≤ numberLimit) (store : FileStore) :
    ∃ stop, Run (fun number => store.Opens (name.pathOf number)) name.next numberLimit stop ∧
      name.laterParts store = (List.range' name.next (stop - name.next)).map name.pathOf := by
  obtain ⟨stop, run⟩ := Run.exists_stop (fun number => store.Opens (name.pathOf number)) name.next
    (numberLimit - name.next)
  have listed := found_eq run
  rw [Nat.add_sub_cancel' fits] at run
  exact ⟨stop, run, listed⟩

theorem MadeFrom.length_le {ending : SplitEnding} (made : MadeFrom path name ending)
    {first count : Nat}
    (opens : ∀ number ∈ List.range' first count, store.Opens (name.pathOf number)) :
    count ≤ store.entries.length := by
  obtain ⟨before, last, injective, cut⟩ := made.exists_cut_pathOf
  have entered : ∀ number ∈ List.range' first count, ∃ dir,
      store.walkLinks false FileStore.maxLinks
          (FileStore.origin store.workingDirectory (name.pathOf first))
          (before.filter (· ≠ "")) = .ok dir ∧
        (store.node? (last number :: dir)).isSome = true := by
    intro number listed
    obtain ⟨split, solid, parent⟩ := cut number
    obtain ⟨told, dot⟩ := Path.ne_of_solid solid
    obtain ⟨node, there⟩ := (opens number listed).find
    obtain ⟨-, location, success, -⟩ := FileStore.exists_resolve there
    rw [FileStore.steps_of_cut split told] at success
    obtain ⟨dir, reached, -, -, held, -⟩ :=
      FileStore.entersDirectory_walkLinks _ _ _ _ _ dot parent success
    refine ⟨dir, ?_, held⟩
    rw [FileStore.origin, Path.isAbsolute_congr (cut first).1 split]
    exact reached
  by_cases none : count = 0
  · exact none ▸ Nat.zero_le _
  · obtain ⟨dir, reached, -⟩ := entered first (by simp; omega)
    -- all of them lie in the directory of the first one
    have inside : ((List.range' first count).map fun k => last k :: dir) ⊆
        store.entries.map Prod.fst := by
      intro location listed
      obtain ⟨number, there, rfl⟩ := List.mem_map.mp listed
      obtain ⟨other, reached', held⟩ := entered number there
      rw [reached] at reached'
      cases reached'
      obtain ⟨node, found⟩ := Option.isSome_iff_exists.mp held
      exact (FileStore.mem_of_node? found).resolve_left (List.cons_ne_nil _ _)
    have distinct : ((List.range' first count).map fun k => last k :: dir).Nodup := by
      refine (List.nodup_range' 1).map fun a b same => ?_
      exact injective a b (List.cons.inj same).1
    have bound := (List.subperm_of_subset distinct inside).length_le
    simpa using bound

/-- A path is a first part's just when names are made from it. Then the number before the next
gives it back, no two numbers give one path, and the parts behind it are those of the numbers up
to the first that cannot be opened. There are no more of them than the store has entries. -/
theorem parts_follow_numbers (path : Path) :
    (isFirstPart path = true ↔ (ofPath? path).isSome = true) ∧
      ∀ name, ofPath? path = some name →
        0 < name.next ∧ name.pathOf (name.next - 1) = path ∧
        (∀ a b, (name.pathOf a).components = (name.pathOf b).components → a = b) ∧
        ∀ store : FileStore, ∃ stop,
          Run (fun number => store.Opens (name.pathOf number)) name.next numberLimit stop ∧
          name.laterParts store = (List.range' name.next (stop - name.next)).map name.pathOf ∧
          stop - name.next ≤ store.entries.length := by
  refine ⟨isFirstPart_iff path, fun name given => ?_⟩
  obtain ⟨ending, made⟩ := exists_madeFrom given
  refine ⟨made.next_pos, made.pathOf_first, fun a b => made.pathOf_injective, fun store => ?_⟩
  obtain ⟨stop, run, listed⟩ := exists_laterParts_eq (Nat.le_of_lt made.next_lt) store
  have opens : ∀ number ∈ List.range' name.next (stop - name.next),
      store.Opens (name.pathOf number) := by
    intro number there
    obtain ⟨low, high⟩ := List.mem_range'_1.mp there
    exact run.each number low (by omega)
  exact ⟨stop, run, listed, made.length_le opens⟩

/-- Two disks of a split set, named with the number before the extension. -/
def twoDisks : FileStore where
  entries := [
    (["work"], .directory),
    (["disk-s001.vmdk", "work"], .regular 0),
    (["disk-s002.vmdk", "work"], .regular 1)]
  contents := #[ofBytes [1], ofBytes [2]]
  workingDirectory := ["work"]

theorem parts_follow_twoDisks :
    ofPath? ⟨"disk-s001.vmdk"⟩ = some ⟨"disk-s".toList, ".vmdk".toList, 2⟩ ∧
      isFirstPart ⟨"disk-s001.vmdk"⟩ = true ∧
      pathOf ⟨"disk-s".toList, ".vmdk".toList, 2⟩ 1 = ⟨"disk-s001.vmdk"⟩ ∧
      (pathOf ⟨"disk-s".toList, ".vmdk".toList, 2⟩ 999).components ≠
        (pathOf ⟨"disk-s".toList, ".vmdk".toList, 2⟩ 1000).components ∧
      laterParts twoDisks ⟨"disk-s".toList, ".vmdk".toList, 2⟩ = [⟨"disk-s002.vmdk"⟩] := by
  have given : ofPath? ⟨"disk-s001.vmdk"⟩ = some ⟨"disk-s".toList, ".vmdk".toList, 2⟩ := by
    decide
  obtain ⟨first_iff, names⟩ := parts_follow_numbers ⟨"disk-s001.vmdk"⟩
  obtain ⟨-, own, apart, parts⟩ := names _ given
  obtain ⟨stop, run, listed, -⟩ := parts twoDisks
  have upToThree : Run (fun number =>
      twoDisks.Opens (pathOf ⟨"disk-s".toList, ".vmdk".toList, 2⟩ number)) 2 numberLimit 3 := by
    refine ⟨by decide, by decide, fun number low high => ?_, fun _ => ?_⟩
    · obtain rfl : number = 2 := by omega
      exact ⟨.file 1, by decide +kernel⟩
    · rintro ⟨handle, success⟩
      have missing : twoDisks.openFile (pathOf ⟨"disk-s".toList, ".vmdk".toList, 2⟩ 3) =
          .error .notFound := by decide +kernel
      rw [missing] at success
      cases success
  obtain rfl := upToThree.unique run
  refine ⟨given, first_iff.mpr (by rw [given]; rfl), own, fun same => ?_, listed.trans ?_⟩
  · exact absurd (apart 999 1000 same) (by decide)
  · decide +kernel

end SplitName

end EvidencePages

import EvidencePages.Proofs.Raw.Pread

/-!
# The segment that holds an offset

The segments of an open image start at zero and each at the stop of the one
before, so that their stops never fall and a search that halves the list may
look for the first one behind an offset. Parts of no length share their start
with a neighbour and are still never found: the segment that is found holds
the offset, and no other one does.
-/

set_option autoImplicit false

namespace EvidencePages

namespace Segment

/-! ## Searching by halves -/

/-- The segments before `point` stop at the offset or earlier, and the others behind it. -/
def Partitioned (segments : List Segment) (offset point : Nat) : Prop :=
  ∀ index segment, segments[index]? = some segment → (segment.stop ≤ offset ↔ index < point)

theorem exists_partitioned {segments : List Segment}
    (sorted : segments.Pairwise fun before after => before.stop ≤ after.stop) (offset : Nat) :
    ∃ point, Partitioned segments offset point := by
  induction segments with
  | nil => exact ⟨0, nofun⟩
  | cons first rest ih =>
    obtain ⟨least, sorted⟩ := List.pairwise_cons.mp sorted
    by_cases before : first.stop ≤ offset
    · obtain ⟨point, cut⟩ := ih sorted
      refine ⟨point + 1, ?_⟩
      intro index segment there
      cases index with
      | zero =>
        cases there
        exact iff_of_true before (Nat.succ_pos point)
      | succ index => exact (cut index segment there).trans Nat.succ_lt_succ_iff.symm
    · refine ⟨0, ?_⟩
      intro index segment there
      refine iff_of_false (fun earlier => before ?_) (Nat.not_lt_zero index)
      rcases List.mem_cons.mp (List.mem_of_getElem? there) with rfl | later
      · exact earlier
      · exact Nat.le_trans (least segment later) earlier

theorem Partitioned.owner?_eq {segments : List Segment} {offset point : Nat}
    (cut : Partitioned segments offset point) :
    owner? segments offset =
      (segments[point]?.filter (·.contains offset)).map fun segment => (point, segment) := by
  induction segments generalizing point with
  | nil => rfl
  | cons first rest ih =>
    rw [owner?_cons]
    have head := cut 0 first rfl
    cases point with
    | zero =>
      rw [if_pos (Nat.not_le.mp fun before => Nat.not_lt_zero 0 (head.mp before)),
        List.getElem?_cons_zero, Option.filter_some]
      split <;> rfl
    | succ point =>
      have tail : Partitioned rest offset point := fun index segment there =>
        (cut (index + 1) segment there).trans Nat.succ_lt_succ_iff
      rw [if_neg (Nat.not_lt.mpr (head.mpr (Nat.succ_pos point))), ih tail,
        List.getElem?_cons_succ, Option.map_map]
      rfl

/-! ## Segments laid out end to end -/

theorem stop_eq_start_of_layout {start index : Nat} {parts : List (Path × Nat)}
    {before after : Segment} (there : (layout start parts)[index]? = some before)
    (next : (layout start parts)[index + 1]? = some after) : after.start = before.stop := by
  induction parts generalizing start index with
  | nil => cases there
  | cons part rest ih =>
    obtain ⟨path, length⟩ := part
    rw [layout, List.getElem?_cons_succ] at next
    cases index with
    | zero =>
      cases there
      cases rest with
      | nil => cases next
      | cons following _ =>
        cases next
        rfl
    | succ index => exact ih there next

theorem pairwise_layout (start : Nat) (parts : List (Path × Nat)) :
    (layout start parts).Pairwise fun before after => before.stop ≤ after.start := by
  induction parts generalizing start with
  | nil => exact List.Pairwise.nil
  | cons part rest ih =>
    refine List.pairwise_cons.mpr ⟨?_, ih _⟩
    intro after later
    obtain ⟨index, there⟩ := List.getElem?_of_mem later
    exact le_start_of_layout there

theorem owner?_layout_eq_some_iff (parts : List (Path × Nat)) (offset index : Nat)
    (segment : Segment) :
    owner? (layout 0 parts) offset = some (index, segment) ↔
      (layout 0 parts)[index]? = some segment ∧ segment.start ≤ offset ∧ offset < segment.stop :=
  ⟨owner?_eq_some, fun ⟨there, inside⟩ =>
    owner?_layout_of_contains there ((contains_iff segment offset).mpr inside)⟩

theorem pairwise_stop_layout (start : Nat) (parts : List (Path × Nat)) :
    (layout start parts).Pairwise fun before after => before.stop ≤ after.stop :=
  (pairwise_layout start parts).imp fun h => Nat.le_trans h (Nat.le_add_right _ _)

end Segment

namespace SplitIndex

open Segment

/-- Parts of any lengths, of none as well, with a total of 64 bits are laid out one behind the
other, in numbers of 64 bits. Every offset before their end is held by exactly one segment, the one
that is found, and so it is by any search that halves the list. -/
theorem finds_only_holder {lengths : List (Path × Nat)}
    (small : totalOf (lengths.map (·.2)) < Config.sizeLimit) {segments : List Segment}
    (laid : segments = layout 0 lengths) :
    (∀ (store : FileStore) (image : RawImage), image.index = none →
        image.config.validate = .ok () →
        RawImage.parts store image.path = lengths.map (·.1) →
        (∀ part ∈ lengths, RawImage.partLength store part.1 = .ok part.2) →
        ∃ pool, RawImage.openImage store image =
          .ok { image with index := some { segments, pool } }) ∧
      segments.map (fun segment => (segment.path, segment.length)) = lengths ∧
      (∀ first, segments[0]? = some first → first.start = 0) ∧
      (∀ index before after, segments[index]? = some before → segments[index + 1]? = some after →
        after.start = before.stop) ∧
      (∀ segment ∈ segments, segment.stop < Config.sizeLimit) ∧
      (∀ pool, size { segments, pool } = totalOf (lengths.map (·.2))) ∧
      ∀ offset,
        (owner? segments offset = none ↔ totalOf (lengths.map (·.2)) ≤ offset) ∧
        (∀ index segment, owner? segments offset = some (index, segment) ↔
          segments[index]? = some segment ∧ segment.start ≤ offset ∧ offset < segment.stop) ∧
        (∀ index segment, owner? segments offset = some (index, segment) → 0 < segment.length) ∧
        (∃ point, Partitioned segments offset point) ∧
        ∀ point, Partitioned segments offset point →
          owner? segments offset =
            (segments[point]?.filter (·.contains offset)).map fun segment => (point, segment) := by
  subst laid
  refine ⟨?_, map_layout 0 lengths, ?_, ?_, ?_, fun _ => total_layout_zero lengths, ?_⟩
  · intro store image closed valid listed each
    refine ⟨.ofPaths (RawImage.parts store image.path) image.config.maxOpenFiles, ?_⟩
    have counted : 0 + totalOf (lengths.map (·.2)) < UInt64.size := by
      rw [Nat.zero_add]
      exact small
    have sized : RawImage.partLengths store 0 (RawImage.parts store image.path) = .ok lengths := by
      rw [listed]
      exact RawImage.partLengths_of_counted each counted
    rw [RawImage.openImage, closed, valid]
    simp only [sized]
  · intro first there
    rw [layout_getElem?, Option.map_eq_some_iff] at there
    obtain ⟨part, -, rfl⟩ := there
    rfl
  · intro index before after there next
    exact stop_eq_start_of_layout there next
  · intro segment listed
    obtain ⟨index, there⟩ := List.getElem?_of_mem listed
    have bound := stop_le_of_layout there
    rw [Nat.zero_add] at bound
    exact Nat.lt_of_le_of_lt bound small
  · intro offset
    have holder := owner?_layout_eq_some_iff lengths offset
    refine ⟨?_, holder, ?_, exists_partitioned (pairwise_stop_layout 0 lengths) offset,
      fun _ cut => cut.owner?_eq⟩
    · rw [owner?_layout_eq_none (Nat.zero_le offset), Nat.zero_add]
      rfl
    · intro index segment found
      obtain ⟨-, before, behind⟩ := (holder index segment).mp found
      rw [stop] at behind
      omega

def threePartsLengths : List (Path × Nat) :=
  [(⟨"disk.000"⟩, 3), (⟨"disk.001"⟩, 0), (⟨"disk.002"⟩, 2)]

/-- The third part is found where the empty one starts too, and none at the end of the image. -/
theorem finds_holder_threeParts :
    totalOf (threePartsLengths.map (·.2)) < Config.sizeLimit ∧
      RawImage.threePartsIndex.segments = layout 0 threePartsLengths ∧
      (∃ pool, RawImage.openImage RawImage.threeParts RawImage.oneHandleImage =
        .ok { RawImage.oneHandleImage with
          index := some { RawImage.threePartsIndex with pool } }) ∧
      owner? RawImage.threePartsIndex.segments 3 = some (2, ⟨⟨"disk.002"⟩, 3, 2⟩) ∧
      owner? RawImage.threePartsIndex.segments 5 = none := by
  have small : totalOf (threePartsLengths.map (·.2)) < Config.sizeLimit := by decide
  have listed : RawImage.parts RawImage.threeParts RawImage.oneHandleImage.path =
      threePartsLengths.map (·.1) := rfl
  have each : ∀ part ∈ threePartsLengths,
      RawImage.partLength RawImage.threeParts part.1 = .ok part.2 := by
    intro part member
    have file := RawImage.threeParts_files part.1 (listed ▸ List.mem_map_of_mem member)
    rw [RawImage.partLength_of_hasFile file]
    simp only [threePartsLengths, List.mem_cons, List.not_mem_nil, or_false] at member
    rcases member with rfl | rfl | rfl <;> rfl
  obtain ⟨opens, -, -, -, -, -, found⟩ := finds_only_holder small
    (show RawImage.threePartsIndex.segments = layout 0 threePartsLengths from rfl)
  refine ⟨small, rfl, opens _ _ rfl rfl listed each, ?_, ?_⟩
  · exact ((found 3).2.1 2 _).mpr ⟨rfl, by decide, by decide⟩
  · exact (found 5).1.mpr (by decide)

end SplitIndex

end EvidencePages

import EvidencePages.Proofs.Ewf.ChunkLengths

/-!
# Opened readers are regular

The entries of a segment's table name that segment, whatever the table says,
and segments are numbered as they are added. A chunk of an opened reader thus
lies in one of its segments.
-/

set_option autoImplicit false

namespace EvidencePages.Ewf

/-! ## Segments of the table -/

theorem Table.map_withExtents {α : Type} (stop : Option UInt64) (f : ChunkLocation → α)
    (blind : ∀ (location : ChunkLocation) (stored : Option UInt64),
      f { location with stored } = f location) (locations : List ChunkLocation) :
    (withExtents stop locations).map f = locations.map f := by
  induction locations with
  | nil => rfl
  | cons location rest ih =>
    cases rest with
    | nil =>
      rw [withExtents, List.map_singleton, List.map_singleton, blind]
    | cons next rest =>
      rw [withExtents, List.map_cons, List.map_cons, ih, blind]

theorem Table.segment_of_mem_locations {segment : Nat} {base : UInt64} {stop : Option UInt64}
    {raw : ByteArray} {location : ChunkLocation}
    (listed : location ∈ locations segment base stop raw) : location.segment = segment := by
  have there : location.segment ∈ (locations segment base stop raw).map (·.segment) :=
    List.mem_map_of_mem listed
  rw [locations, map_withExtents stop _ (fun _ _ => rfl), List.map_map] at there
  obtain ⟨entry, -, same⟩ := List.mem_map.mp there
  exact same.symm

theorem segment_of_readTable {store : FileStore} {handle : Handle} {segment : Nat}
    {sectorsEnd : Option UInt64} {descriptor : Descriptor} {found : List ChunkLocation}
    (read : readTable store handle segment sectorsEnd descriptor = .ok found) :
    ∀ location ∈ found, location.segment = segment := by
  unfold readTable at read
  split at read
  · cases read
  dsimp only at read
  split at read
  · cases read
  split at read
  · cases read
  split at read
  · cases read
  · cases read
    exact fun location listed => Table.segment_of_mem_locations listed

def Gathered.Within (segment : Nat) (gathered : Gathered) : Prop :=
  ∀ location ∈ gathered.chunks, location.segment = segment

theorem Gathered.within_nothing (segment : Nat) : Gathered.Within segment {} := by
  intro location listed
  cases listed with
  | mk listed => cases listed

theorem visit_within {store : FileStore} {handle : Handle} {segment : Nat}
    {gathered next : Gathered} {descriptor : Descriptor} (before : gathered.Within segment)
    (visited : visit store handle segment gathered descriptor = .ok next) :
    next.Within segment := by
  unfold visit at visited
  cases kind : descriptor.kind with (rw [kind] at visited; dsimp only at visited)
  | header wide =>
    split at visited
    · cases visited
    split at visited <;> cases visited <;> exact before
  | volume =>
    split at visited
    · cases visited
      exact before
    split at visited
    · cases visited
    split at visited <;> cases visited
    exact before
  | sectors =>
    split at visited
    · cases visited
    · cases visited
      exact before
  | table =>
    cases table : readTable store handle segment gathered.sectorsEnd descriptor with
    | error cause =>
      rw [table] at visited
      cases visited
    | ok found =>
      rw [table] at visited
      cases visited
      intro location listed
      dsimp only at listed
      rw [Array.mem_def, Array.toList_appendList, List.mem_append] at listed
      rcases listed with old | new
      · exact before location (Array.mem_def.mpr old)
      · exact segment_of_readTable table location new
  | last =>
    cases visited
    exact before
  | other =>
    cases visited
    exact before

theorem walkFrom_within {store : FileStore} {handle : Handle} {segment : Nat} {fileSize : UInt64}
    {count : Nat} {offset : UInt64} {gathered last : Gathered} (before : gathered.Within segment)
    (walked : walkFrom store handle segment fileSize count offset gathered = .ok last) :
    last.Within segment := by
  induction count generalizing offset gathered with
  | zero =>
    cases walked
    exact before
  | succ count ih =>
    rw [walkFrom] at walked
    split at walked
    · cases walked
    split at walked
    · cases walked
      exact before
    split at walked
    · cases walked
    dsimp only at walked
    split at walked
    · cases walked
    rename_i next visited
    have kept := visit_within before visited
    split at walked
    · cases walked
      exact kept
    split at walked
    · cases walked
      exact kept
    · exact ih kept walked

/-! ## Opening -/

structure Opening.Counts (opening : Opening) (count : Nat) : Prop where
  sizes : opening.segmentSizes.size = count
  located : ∀ location ∈ opening.chunks, location.segment < count

theorem addSegment_counts {store : FileStore} {index : Nat} {opening next : Opening}
    (counts : opening.Counts index) (added : addSegment store index opening = .ok next) :
    next.Counts (index + 1) := by
  unfold addSegment at added
  split at added
  · cases added
  split at added
  · cases added
  split at added
  · cases added
  rename_i gathered walked
  have within : gathered.Within index := walkFrom_within (Gathered.within_nothing index) walked
  cases added
  refine ⟨?_, ?_⟩
  · rw [Array.size_push, counts.sizes]
  · intro location listed
    rcases Array.mem_append.mp listed with old | new
    · exact Nat.lt_succ_of_lt (counts.located location old)
    · exact within location new ▸ Nat.lt_succ_self _

theorem addSegments_counts {store : FileStore} {count index : Nat} {opening last : Opening}
    (counts : opening.Counts index) (added : addSegments store count index opening = .ok last) :
    last.Counts (index + count) := by
  induction count generalizing index opening with
  | zero =>
    cases added
    exact counts
  | succ count ih =>
    rw [addSegments] at added
    split at added
    · cases added
    rename_i next step
    have total : index + (count + 1) = index + 1 + count := by omega
    rw [total]
    exact ih (addSegment_counts counts step) added

namespace Reader

theorem ofOpening_regular {opening : Opening} {count : Nat} {reader : Reader}
    (counts : opening.Counts count) (made : ofOpening opening = .ok reader) :
    reader.Regular := by
  obtain ⟨volume, -, sized, rfl⟩ := ofOpening_eq_ok_iff.mp made
  refine ⟨?_, ?_, ?_⟩
  · apply Nat.pos_of_ne_zero
    intro zero
    exact sized (UInt64.toNat_inj.mp zero)
  · intro location listed
    have taken : location ∈ opening.chunks := by
      rw [Array.mem_def] at listed ⊢
      rw [Array.toList_extract, List.extract_eq_take_drop] at listed
      exact List.mem_of_mem_drop (List.mem_of_mem_take listed)
    exact Nat.lt_of_lt_of_eq (counts.located location taken) counts.sizes.symm
  · intro index data found
    simp [Recency.find?] at found

theorem openParts_regular {store : FileStore} {parts : List Path} {maxOpen : Nat}
    {reader : Reader} (success : openParts store parts maxOpen = .ok reader) :
    reader.Regular := by
  obtain ⟨-, opening, added, made⟩ := openParts_eq_ok_iff.mp success
  have none : Opening.Counts { pool := .ofPaths parts maxOpen } 0 := by
    refine ⟨rfl, ?_⟩
    intro location listed
    cases listed with
    | mk listed => cases listed
  exact ofOpening_regular (addSegments_counts none added) made

end Reader

end EvidencePages.Ewf

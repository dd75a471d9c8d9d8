import EvidencePages.Proofs.Ewf.Decoding

/-!
# A set of which one segment is cut

Entries that a cut takes from a table are missing from the numbers of all
chunks behind it. The chunks of earlier segments, and those of the cut one
that are left, keep their numbers.
-/

set_option autoImplicit false

namespace EvidencePages.Ewf.Acquisition

variable {a : Acquisition}

variable (a) in
def segmentFiles : List ByteArray := (List.range a.segmentCount).map a.segmentFile

variable (a) in
def cutFiles (segment length : Nat) : List ByteArray :=
  a.segmentFiles.set segment (slice (a.segmentFile segment) 0 length)

variable (a) in
def lost (segment length : Nat) : Nat := a.held segment - a.kept segment length

variable (a) in
def cutAt (segment length index : Nat) : Cut :=
  ⟨index, if index = segment then length else (a.segmentFile index).size⟩

variable (a) in
def cutSet (segment length : Nat) : List Cut :=
  (List.range a.segmentCount).map (a.cutAt segment length)

theorem getElem?_cutSet {segment length index : Nat} (inside : index < a.segmentCount) :
    (a.cutSet segment length)[index]? = some (a.cutAt segment length index) := by
  rw [cutSet, List.getElem?_map, List.getElem?_range inside]
  rfl

theorem map_cutFile_cutSet (segment length : Nat) :
    (a.cutSet segment length).map a.cutFile = a.cutFiles segment length := by
  apply List.ext_getElem?
  intro index
  rw [cutFiles, List.getElem?_set, segmentFiles, List.getElem?_map, List.getElem?_map,
    List.length_map, List.length_range]
  by_cases inside : index < a.segmentCount
  · rw [getElem?_cutSet inside, List.getElem?_range inside, Option.map_some, Option.map_some,
      cutFile, cutAt]
    by_cases same : index = segment
    · rw [if_pos same, if_pos same.symm, if_pos (same ▸ inside), same]
    · rw [if_neg same, if_neg (Ne.symm same), slice_eq_self (Nat.le_refl _)]
  · have none : (List.range a.segmentCount)[index]? = none :=
      List.getElem?_eq_none (by rw [List.length_range]; omega)
    rw [cutSet, List.getElem?_map, none]
    by_cases same : segment = index
    · rw [if_pos same, if_neg (by omega)]
      rfl
    · rw [if_neg same]
      rfl

theorem supplied_cutSet {store : FileStore} {paths : List Path} {segment length : Nat}
    (bound : length ≤ (a.segmentFile segment).size)
    (files : ∀ path ∈ paths, store.HasFile path)
    (bytes : paths.map store.bytesAt = a.cutFiles segment length) :
    a.Supplied store paths (a.cutSet segment length) := by
  refine ⟨files, bytes.trans (map_cutFile_cutSet segment length).symm, ?_⟩
  intro cut listed
  obtain ⟨index, inside, rfl⟩ := List.mem_map.mp listed
  refine ⟨List.mem_range.mp inside, ?_⟩
  rw [cutAt]
  dsimp only
  split
  · rename_i same
    exact same ▸ bound
  · exact Nat.le_refl _

/-! ## Numbers of chunks -/

theorem firstChunk_succ (segment : Nat) :
    a.firstChunk (segment + 1) = a.firstChunk segment + a.chunksPerSegment := Nat.succ_mul ..

theorem held_eq (segment : Nat) :
    a.held segment = min a.chunksPerSegment (a.chunkCount - a.firstChunk segment) := rfl

theorem firstChunk_le_firstChunk {segment later : Nat} (h : segment ≤ later) :
    a.firstChunk segment ≤ a.firstChunk later := Nat.mul_le_mul_right _ h

theorem entriesBefore_cutSet (segment length : Nat) {index : Nat}
    (inside : index ≤ a.segmentCount) :
    a.entriesBefore (a.cutSet segment length) index + (if segment < index then
        a.lost segment length else 0) = min a.chunkCount (a.firstChunk index) := by
  induction index with
  | zero =>
    rw [if_neg (Nat.not_lt_zero _), firstChunk, Nat.zero_mul, Nat.min_zero]
    rfl
  | succ index ih =>
    have before := ih (Nat.le_of_succ_le inside)
    have sum : a.entriesBefore (a.cutSet segment length) (index + 1) =
        a.entriesBefore (a.cutSet segment length) index +
          a.keptOf (a.cutAt segment length index) := by
      rw [entriesBefore, List.take_add_one, getElem?_cutSet inside, List.map_append,
        totalOf_append]
      rfl
    have whole : ∀ other, other ≠ segment →
        a.keptOf (a.cutAt segment length other) = a.held other := by
      intro other h
      rw [keptOf, cutAt, if_neg h, kept_size]
    have cut : a.keptOf (a.cutAt segment length segment) = a.kept segment length := by
      rw [keptOf, cutAt, if_pos rfl]
    have le := kept_le (a := a) segment length
    have held := held_eq (a := a) index
    rw [sum, firstChunk_succ]
    rcases Nat.lt_trichotomy segment index with earlier | rfl | later
    · rw [whole index (by omega), if_pos (by omega)]
      rw [if_pos earlier] at before
      omega
    · rw [cut, if_pos (by omega), lost]
      rw [if_neg (Nat.lt_irrefl _)] at before
      omega
    · rw [whole index (by omega), if_neg (by omega)]
      rw [if_neg (by omega)] at before
      omega

theorem keptOf_cutAt_le (segment length index : Nat) :
    a.keptOf (a.cutAt segment length index) ≤ a.held index := kept_le _ _

/-- An entry of a cut set stands for the chunk whose number is larger by what the cut took from
the table of an earlier segment. -/
theorem exists_chunk {segment length index : Nat}
    (inside : index < totalOf ((a.cutSet segment length).map a.keptOf)) :
    ∃ part place, part < a.segmentCount ∧ place < a.keptOf (a.cutAt segment length part) ∧
      index = a.entriesBefore (a.cutSet segment length) part + place ∧
      index + (if segment < part then a.lost segment length else 0) =
        a.firstChunk part + place := by
  obtain ⟨part, cut, place, found, known, same⟩ := exists_place inside
  have listed : part < a.segmentCount := by
    have bound := (List.getElem?_eq_some_iff.mp found).1
    rwa [cutSet, List.length_map, List.length_range] at bound
  rw [getElem?_cutSet listed] at found
  obtain rfl := Option.some.inj found
  have before := entriesBefore_cutSet (a := a) segment length (Nat.le_of_lt listed)
  have le := keptOf_cutAt_le (a := a) segment length part
  have held := held_eq (a := a) part
  refine ⟨part, place, listed, known, same, ?_⟩
  omega

theorem segmentCount_pos : 0 < a.segmentCount := Nat.le_max_left _ _

theorem chunkCount_le_firstChunk : a.chunkCount ≤ a.firstChunk a.segmentCount := by
  have segments : pieceCount a.chunkCount a.chunksPerSegment ≤ a.segmentCount :=
    Nat.le_max_right _ _
  exact Nat.le_trans (le_pieceCount_mul a.chunks_pos a.chunkCount)
    (Nat.mul_le_mul_right _ segments)

theorem div_chunksPerSegment_lt {index : Nat} (h : index < a.chunkCount) :
    index / a.chunksPerSegment < a.segmentCount := by
  rw [Nat.div_lt_iff_lt_mul a.chunks_pos]
  exact Nat.lt_of_lt_of_le h chunkCount_le_firstChunk

theorem firstChunk_add_mod (index : Nat) :
    a.firstChunk (index / a.chunksPerSegment) + index % a.chunksPerSegment = index :=
  Nat.div_add_mod' index a.chunksPerSegment

theorem firstChunk_add_div {part place : Nat} (h : place < a.chunksPerSegment) :
    (a.firstChunk part + place) / a.chunksPerSegment = part ∧
      (a.firstChunk part + place) % a.chunksPerSegment = place := by
  rw [firstChunk, Nat.add_comm, Nat.add_mul_div_right _ _ a.chunks_pos, Nat.add_mul_mod_self_right,
    Nat.div_eq_of_lt h, Nat.mod_eq_of_lt h, Nat.zero_add]
  exact ⟨rfl, rfl⟩

theorem mod_lt_held {index : Nat} (h : index < a.chunkCount) :
    index % a.chunksPerSegment < a.held (index / a.chunksPerSegment) := by
  have place := firstChunk_add_mod (a := a) index
  have step := Nat.mod_lt index a.chunks_pos
  rw [held_eq]
  omega

end EvidencePages.Ewf.Acquisition

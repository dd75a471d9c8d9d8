import EvidencePages.Proofs.Ewf.RoundTrip

/-!
# Reads of a truncated set

What a cut leaves of a table keeps the numbers of its chunks, and a cut in the
last segment only makes reads fail. Where an earlier table lost entries, the
chunks behind it are read under smaller numbers than their own. Whether reads
are still right is then a matter of what the media hold.
-/

set_option autoImplicit false

namespace EvidencePages.Ewf.Acquisition

variable {a : Acquisition} {store : FileStore} {paths : List Path}

variable (a) in
/-- What a whole set gives for the entry of chunk `index` where `expected` bytes are wanted. -/
def givenFor (index expected : Nat) : Option ByteArray :=
  a.taken ⟨index / a.chunksPerSegment, (a.segmentFile (index / a.chunksPerSegment)).size⟩
    (index % a.chunksPerSegment) expected

variable (a) in
/-- A cut does no harm where each chunk behind the lost entries, as it is read under its new number,
is equal to the chunk of that number or cannot be decoded in its place. -/
def Harmless (segment length : Nat) : Prop :=
  ∀ index, a.firstChunk segment + a.kept segment length ≤ index →
    index + a.lost segment length < a.chunkCount →
    ∀ bytes, a.givenFor (index + a.lost segment length) (a.chunk index).size = some bytes →
      bytes = a.chunk index

theorem givenFor_own {index : Nat} (h : index < a.chunkCount) :
    a.givenFor index (a.chunk index).size = some (a.chunk index) := by
  have known : index % a.chunksPerSegment < a.keptOf
      ⟨index / a.chunksPerSegment, (a.segmentFile (index / a.chunksPerSegment)).size⟩ := by
    rw [keptOf, kept_size]
    exact mod_lt_held h
  have own := taken_own known
  rw [firstChunk_add_mod] at own
  exact own

theorem firstChunk_add_kept (segment length : Nat) :
    a.firstChunk segment + a.kept segment length + a.lost segment length =
      a.firstChunk segment + a.held segment := by
  have le := kept_le (a := a) segment length
  rw [lost]
  omega

theorem harmless_of_last {segment length : Nat} (last : segment + 1 = a.segmentCount) :
    a.Harmless segment length := by
  intro index behind inside
  have numbers := firstChunk_add_kept (a := a) segment length
  have reach : a.chunkCount ≤ a.firstChunk (segment + 1) := last ▸ chunkCount_le_firstChunk
  rw [firstChunk_succ] at reach
  rw [held_eq] at numbers
  omega

/-- A chunk of an opened set decodes to what the entry gives that took its number. -/
theorem Opened.decoded_cut {reader : Reader} {segment length : Nat}
    (opened : a.Opened store paths (a.cutSet segment length) reader)
    (fits : a.Fits) (inflates : ∀ data, Zlib.decode? (a.deflate data) = some data)
    (supplied : a.Supplied store paths (a.cutSet segment length)) {index : Nat}
    (inside : index < a.chunkCount) {data : ByteArray}
    (decoded : reader.decoded store index = .ok data) :
    data = a.chunk index ∨
      a.firstChunk segment + a.kept segment length ≤ index ∧
        index + a.lost segment length < a.chunkCount ∧
        a.givenFor (index + a.lost segment length) (a.chunk index).size = some data := by
  have there : index < totalOf ((a.cutSet segment length).map a.keptOf) := by
    apply Nat.lt_of_not_le
    intro missing
    exact opened.decoded_of_missing missing data decoded
  obtain ⟨part, place, listed, known, same, number⟩ := exists_chunk there
  have given := (opened.decoded_eq_ok_iff fits inflates supplied (getElem?_cutSet listed) known
    (same ▸ inside) data).mp (same ▸ decoded)
  rw [← same] at given
  have held : place < a.held part :=
    Nat.lt_of_lt_of_le known (keptOf_cutAt_le segment length part)
  rw [held_eq] at held
  by_cases later : segment < part
  · right
    have numbers := firstChunk_add_kept (a := a) segment length
    have own := held_eq (a := a) segment
    have order := firstChunk_le_firstChunk (a := a) later
    have whole : a.cutAt segment length part = ⟨part, (a.segmentFile part).size⟩ := by
      rw [cutAt, if_neg (Nat.ne_of_gt later)]
    obtain ⟨div, mod⟩ : (a.firstChunk part + place) / a.chunksPerSegment = part ∧
        (a.firstChunk part + place) % a.chunksPerSegment = place := firstChunk_add_div (by omega)
    rw [if_pos later] at number
    rw [firstChunk_succ] at order
    refine ⟨by omega, by omega, ?_⟩
    rw [number, givenFor, div, mod, ← whole]
    exact given
  · left
    rw [if_neg later, Nat.add_zero] at number
    have own := taken_own known
    have segment : (a.cutAt segment length part).segment = part := rfl
    rw [segment, ← number, given] at own
    exact Option.some.inj own

theorem Opened.decoded_behind {reader : Reader} {segment length : Nat}
    (opened : a.Opened store paths (a.cutSet segment length) reader)
    (fits : a.Fits) (inflates : ∀ data, Zlib.decode? (a.deflate data) = some data)
    (supplied : a.Supplied store paths (a.cutSet segment length)) {index : Nat}
    (behind : a.firstChunk segment + a.kept segment length ≤ index)
    (inside : index + a.lost segment length < a.chunkCount) {bytes : ByteArray}
    (given : a.givenFor (index + a.lost segment length) (a.chunk index).size = some bytes) :
    reader.decoded store index = .ok bytes := by
  have numbers := firstChunk_add_kept (a := a) segment length
  have own := held_eq (a := a) segment
  have same := firstChunk_add_mod (a := a) (index + a.lost segment length)
  have listed := div_chunksPerSegment_lt inside
  have held := mod_lt_held inside
  have short := Nat.mod_lt (index + a.lost segment length) a.chunks_pos
  rw [givenFor] at given
  generalize (index + a.lost segment length) / a.chunksPerSegment = part at *
  generalize (index + a.lost segment length) % a.chunksPerSegment = place at *
  have later : segment < part := by
    apply Nat.lt_of_not_le
    intro early
    have order := firstChunk_le_firstChunk (a := a) early
    omega
  have whole : a.cutAt segment length part = ⟨part, (a.segmentFile part).size⟩ := by
    rw [cutAt, if_neg (Nat.ne_of_gt later)]
  have known : place < a.keptOf (a.cutAt segment length part) := by
    rw [whole, keptOf, kept_size]
    exact held
  have before := entriesBefore_cutSet (a := a) segment length (Nat.le_of_lt listed)
  rw [if_pos later, Nat.min_eq_right (by omega)] at before
  have number : index = a.entriesBefore (a.cutSet segment length) part + place := by omega
  rw [number]
  apply (opened.decoded_eq_ok_iff fits inflates supplied (getElem?_cutSet listed) known
    (by omega) bytes).mpr
  rw [← number, whole]
  exact given

/-! ## Reads -/

theorem Opened.readAt_behind {reader : Reader} {segment length : Nat}
    (opened : a.Opened store paths (a.cutSet segment length) reader)
    (fits : a.Fits) (inflates : ∀ data, Zlib.decode? (a.deflate data) = some data)
    (supplied : a.Supplied store paths (a.cutSet segment length)) {index : Nat}
    (behind : a.firstChunk segment + a.kept segment length ≤ index)
    (inside : index + a.lost segment length < a.chunkCount) {bytes : ByteArray}
    (given : a.givenFor (index + a.lost segment length) (a.chunk index).size = some bytes)
    (history : List (Nat × Nat)) :
    (Reader.readAt store (reader.afterReads store history) (index * a.chunkSize)
      (a.chunk index).size).1 = .ok bytes := by
  have decoded := opened.decoded_behind fits inflates supplied behind inside given
  exact (opened.readAt_of_decoded (Nat.lt_of_le_of_lt (Nat.le_add_right _ _) inside) decoded
    history).2

/-! ## A segment without its table -/

theorem not_refused_sectorsStop (segment : Nat) :
    ¬ a.Refused segment (a.sectorsStop segment) := by
  have offset := sectorsStop_eq (a := a) segment
  have width : Descriptor.length = 76 := rfl
  intro refused
  rcases refused with short | ⟨first, -, short⟩ | ⟨behind, -⟩
  · rw [offset, sectorsOffset] at short
    omega
  · rw [first] at short
    exact Nat.not_lt_of_le volumeStop_le_sectorsStop short
  · omega

theorem exists_openParts_without_table (fits : a.Fits)
    (inflates : ∀ data, Zlib.decode? (a.deflate data) = some data) {segment : Nat}
    (supplied : a.Supplied store paths (a.cutSet segment (a.sectorsStop segment)))
    (maxOpen : Nat) : ∃ reader, Reader.openParts store paths maxOpen = .ok reader := by
  have listed : a.cutAt segment (a.sectorsStop segment) 0 ∈
      a.cutSet segment (a.sectorsStop segment) :=
    List.mem_of_getElem? (getElem?_cutSet segmentCount_pos)
  apply exists_openParts fits inflates supplied _ ⟨_, listed, rfl, _⟩ maxOpen
  · intro cut there
    obtain ⟨index, -, rfl⟩ := List.mem_map.mp there
    rw [cutAt]
    dsimp only
    by_cases same : index = segment
    · rw [if_pos same, same]
      exact not_refused_sectorsStop segment
    · rw [if_neg same]
      exact not_refused_size index
  · rw [cutAt]
    dsimp only
    by_cases same : 0 = segment
    · rw [if_pos same, ← same]
      exact volumeStop_le_sectorsStop
    · rw [if_neg same]
      exact volumeStop_le

theorem kept_sectorsStop (segment : Nat) : a.kept segment (a.sectorsStop segment) = 0 := by
  apply kept_of_cut
  rw [entriesOffset, Descriptor.length]
  omega

/-! ## Right reads -/

/-- Reads of a set that opens although one of its segments is cut give acquired bytes or fail, if
and only if the cut does no harm. -/
theorem reads_right_iff_harmless (fits : a.Fits)
    (inflates : ∀ data, Zlib.decode? (a.deflate data) = some data) {segment length : Nat}
    (bound : length ≤ (a.segmentFile segment).size)
    (files : ∀ path ∈ paths, store.HasFile path)
    (bytes : paths.map store.bytesAt = a.cutFiles segment length) {maxOpen : Nat}
    {reader : Reader} (success : Reader.openParts store paths maxOpen = .ok reader) :
    (∀ (history : List (Nat × Nat)) (offset length : Nat) (result : ByteArray),
      (Reader.readAt store (reader.afterReads store history) offset length).1 = .ok result →
        result = slice a.media offset length) ↔
      a.Harmless segment length := by
  have supplied := supplied_cutSet bound files bytes
  have opened := opened_of_openParts fits inflates supplied success
  constructor
  · intro right index behind inside data given
    have read := opened.readAt_behind fits inflates supplied behind inside given []
    rw [right [] _ _ data read, size_chunk, slice_min]
    rfl
  · intro harmless history offset length result read
    rw [opened.readAt_afterReads] at read
    by_cases past : a.media.size ≤ offset
    · rw [Nat.sub_eq_zero_of_le past, Nat.min_zero, Reader.assembled, if_pos rfl] at read
      cases read
      rw [slice_of_size_le past]
    · have every : ∀ index data, index * a.chunkSize < a.media.size →
          reader.decoded store index = .ok data → data = a.chunk index := by
        intro index data within decoded
        have inside := (lt_chunkCount index).mpr within
        rcases opened.decoded_cut fits inflates supplied inside decoded with
          own | ⟨behind, later, given⟩
        · exact own
        · exact harmless index behind later data given
      rw [Reader.assembled_sound chunkSize_pos every (by omega) read, slice_min]

def withoutLastTable : FileStore :=
  sampleStore (sample.segmentFile 0) (slice (sample.segmentFile 1) 0 (sample.sectorsStop 1))

theorem reads_right_without_last_table :
    sample.Fits ∧ (∀ data, Zlib.decode? (sample.deflate data) = some data) ∧
      sample.sectorsStop 1 ≤ (sample.segmentFile 1).size ∧
      (∀ path ∈ samplePaths, withoutLastTable.HasFile path) ∧
      samplePaths.map withoutLastTable.bytesAt = sample.cutFiles 1 (sample.sectorsStop 1) ∧
      ∃ reader, Reader.openParts withoutLastTable samplePaths 1 = .ok reader ∧
        ∀ (history : List (Nat × Nat)) (offset length : Nat) (result : ByteArray),
          (Reader.readAt withoutLastTable (reader.afterReads withoutLastTable history) offset
            length).1 = .ok result → result = slice sample.media offset length := by
  have bound : sample.sectorsStop 1 ≤ (sample.segmentFile 1).size :=
    Nat.le_trans (Nat.le_add_right _ _) (sectorsStop_le 1)
  have files := hasFile_sampleStore (size_segmentFile_sample_lt 0)
    (Nat.lt_of_le_of_lt (size_slice_le (sample.segmentFile 1) 0 (sample.sectorsStop 1))
      (Nat.lt_of_le_of_lt bound (size_segmentFile_sample_lt 1)))
  have bytes : samplePaths.map withoutLastTable.bytesAt =
      sample.cutFiles 1 (sample.sectorsStop 1) := by
    rw [withoutLastTable, bytesAt_sampleStore, cutFiles, segmentFiles_sample]
    rfl
  obtain ⟨reader, success⟩ := exists_openParts_without_table fits_sample inflates_sample
    (supplied_cutSet bound files bytes) 1
  have last : 1 + 1 = sample.segmentCount := segmentCount_sample.symm
  exact ⟨fits_sample, inflates_sample, bound, files, bytes, reader, success,
    (reads_right_iff_harmless fits_sample inflates_sample bound files bytes success).mpr
      (harmless_of_last last)⟩

def withoutFirstTable : FileStore :=
  sampleStore (slice (sample.segmentFile 0) 0 (sample.sectorsStop 0)) (sample.segmentFile 1)

/-- Without the first table, the second sector is read in the place of the first. -/
theorem readAt_without_first_table :
    sample.Fits ∧ (∀ data, Zlib.decode? (sample.deflate data) = some data) ∧
      sample.sectorsStop 0 < (sample.segmentFile 0).size ∧
      (∀ path ∈ samplePaths, withoutFirstTable.HasFile path) ∧
      samplePaths.map withoutFirstTable.bytesAt = sample.cutFiles 0 (sample.sectorsStop 0) ∧
      ∃ reader, Reader.openParts withoutFirstTable samplePaths 1 = .ok reader ∧
        (Reader.readAt withoutFirstTable reader 0 512).1 = .ok (ofBytes secondSector) ∧
        slice sample.media 0 512 = ofBytes firstSector ∧
        ofBytes secondSector ≠ ofBytes firstSector := by
  have bound : sample.sectorsStop 0 < (sample.segmentFile 0).size :=
    Nat.lt_of_lt_of_le (Nat.lt_add_of_pos_right (by decide)) (sectorsStop_le 0)
  have files := hasFile_sampleStore
    (Nat.lt_of_le_of_lt (size_slice_le (sample.segmentFile 0) 0 (sample.sectorsStop 0))
      (Nat.lt_trans bound (size_segmentFile_sample_lt 0))) (size_segmentFile_sample_lt 1)
  have bytes : samplePaths.map withoutFirstTable.bytesAt =
      sample.cutFiles 0 (sample.sectorsStop 0) := by
    rw [withoutFirstTable, bytesAt_sampleStore, cutFiles, segmentFiles_sample]
    rfl
  have supplied := supplied_cutSet (Nat.le_of_lt bound) files bytes
  obtain ⟨reader, success⟩ := exists_openParts_without_table fits_sample inflates_sample supplied 1
  have opened := opened_of_openParts fits_sample inflates_sample supplied success
  have lost : sample.lost 0 (sample.sectorsStop 0) = 1 := by
    rw [Acquisition.lost, kept_sectorsStop, held_eq, chunkCount_sample]
    rfl
  have behind : sample.firstChunk 0 + sample.kept 0 (sample.sectorsStop 0) ≤ 0 := by
    rw [kept_sectorsStop]
    decide
  have inside : 0 + sample.lost 0 (sample.sectorsStop 0) < sample.chunkCount := by
    rw [lost, chunkCount_sample]
    decide
  have sizes : (sample.chunk 0).size = 512 := by
    rw [chunk_sample_zero]
    exact length_firstSector
  have given : sample.givenFor (0 + sample.lost 0 (sample.sectorsStop 0)) (sample.chunk 0).size =
      some (ofBytes secondSector) := by
    have own := givenFor_own inside
    rw [lost, Nat.zero_add, chunk_sample_one, size_ofBytes, length_secondSector] at own
    rw [lost, sizes]
    exact own
  have read := opened.readAt_behind fits_sample inflates_sample supplied behind inside given []
  rw [Nat.zero_mul, sizes] at read
  have first : slice sample.media 0 512 = ofBytes firstSector := by
    rw [← chunk_sample_zero, chunk, Nat.zero_mul, chunkSize_sample]
  refine ⟨fits_sample, inflates_sample, bound, files, bytes, reader, success, read, first, ?_⟩
  intro same
  have heads := congrArg (fun bytes : ByteArray => bytes.data.toList.head?) same
  cases heads

end EvidencePages.Ewf.Acquisition

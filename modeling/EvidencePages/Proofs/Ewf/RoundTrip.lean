import EvidencePages.Proofs.Ewf.Assembly
import EvidencePages.Proofs.Ewf.ChunkLengths
import EvidencePages.Proofs.Ewf.CutSet
import EvidencePages.Proofs.Zlib.Plain

/-!
# Reading back acquired media

The files of a whole set open to a reader of as many bytes as were acquired,
and each read gives the bytes of its range.
-/

set_option autoImplicit false

namespace EvidencePages.Ewf.Acquisition

variable {a : Acquisition} {store : FileStore} {paths : List Path}

theorem cutFiles_size (segment : Nat) :
    a.cutFiles segment (a.segmentFile segment).size = a.segmentFiles := by
  apply List.ext_getElem?
  intro index
  rw [cutFiles, slice_eq_self (Nat.le_refl _), List.getElem?_set, segmentFiles,
    List.getElem?_map, List.length_map, List.length_range]
  by_cases same : segment = index
  · rw [if_pos same]
    by_cases inside : segment < a.segmentCount
    · rw [if_pos inside, ← same, List.getElem?_range inside]
      rfl
    · rw [if_neg inside, List.getElem?_eq_none (by rw [List.length_range]; omega)]
      rfl
  · rw [if_neg same]

theorem lost_size (segment : Nat) : a.lost segment (a.segmentFile segment).size = 0 := by
  rw [lost, kept_size, Nat.sub_self]

theorem cutAt_size (segment index : Nat) :
    a.cutAt segment (a.segmentFile segment).size index =
      ⟨index, (a.segmentFile index).size⟩ := by
  rw [cutAt]
  split
  · rename_i same
    rw [same]
  · rfl

theorem Opened.decoded_whole {reader : Reader} {segment : Nat}
    (opened : a.Opened store paths (a.cutSet segment (a.segmentFile segment).size) reader)
    (fits : a.Fits) (inflates : ∀ data, Zlib.decode? (a.deflate data) = some data)
    (supplied : a.Supplied store paths (a.cutSet segment (a.segmentFile segment).size))
    {index : Nat} (inside : index < a.chunkCount) :
    reader.decoded store index = .ok (a.chunk index) := by
  have listed := div_chunksPerSegment_lt inside
  have held := mod_lt_held inside
  have number := firstChunk_add_mod (a := a) index
  have before := entriesBefore_cutSet (a := a) segment (a.segmentFile segment).size
    (Nat.le_of_lt listed)
  rw [lost_size, ite_self, Nat.add_zero, Nat.min_eq_right (by omega)] at before
  have known : index % a.chunksPerSegment < a.keptOf (a.cutAt segment
      (a.segmentFile segment).size (index / a.chunksPerSegment)) := by
    rw [cutAt_size, keptOf, kept_size]
    exact held
  have own := taken_own known
  have decoded := opened.decoded_eq_ok_iff fits inflates supplied (getElem?_cutSet listed) known
    (by omega) (a.chunk index)
  have segment : (a.cutAt segment (a.segmentFile segment).size
    (index / a.chunksPerSegment)).segment = index / a.chunksPerSegment := rfl
  rw [segment, number] at own
  rw [before, number] at decoded
  exact decoded.mpr own

theorem Opened.mediaSize_eq {cuts : List Cut} {reader : Reader}
    (opened : a.Opened store paths cuts reader) : reader.mediaSize = a.media.size := by
  rw [Reader.mediaSize, opened.volume, volume_mediaSize]

theorem Opened.chunkSize_eq {cuts : List Cut} {reader : Reader}
    (opened : a.Opened store paths cuts reader) : reader.chunkSize = a.chunkSize := by
  rw [Reader.chunkSize, opened.volume, toNat_volume_chunkSize]

theorem Opened.readAt_afterReads {cuts : List Cut} {reader : Reader}
    (opened : a.Opened store paths cuts reader) (history : List (Nat × Nat))
    (offset length : Nat) :
    (Reader.readAt store (reader.afterReads store history) offset length).1 =
      Reader.assembled (reader.decoded store) a.chunkSize offset
        (min length (a.media.size - offset)) := by
  have counted : ¬UInt64.size ≤ a.media.size := by
    rw [← volume_mediaSize (a := a)]
    exact Nat.not_le.mpr volume_mediaSize_lt
  rw [Reader.readAt_afterReads opened.sound, Reader.answer, opened.mediaSize_eq,
    opened.chunkSize_eq, if_neg counted]

theorem Opened.readAt_of_decoded {cuts : List Cut} {reader : Reader}
    (opened : a.Opened store paths cuts reader) {index : Nat} (inside : index < a.chunkCount)
    {data : ByteArray} (decoded : reader.decoded store index = .ok data)
    (history : List (Nat × Nat)) :
    data.size = (a.chunk index).size ∧
      (Reader.readAt store (reader.afterReads store history) (index * a.chunkSize)
        (a.chunk index).size).1 = .ok data := by
  have within := (lt_chunkCount index).mp inside
  have positive := chunkSize_pos (a := a)
  have own := size_chunk (a := a) index
  have size := Reader.size_of_decoded decoded
  rw [opened.volume, volume_chunkLength] at size
  refine ⟨size, ?_⟩
  rw [opened.readAt_afterReads, Nat.min_eq_left (by omega), ← size]
  exact Reader.assembled_of_chunk decoded (by omega) (by omega)

/-! ## Two sectors in two segments -/

def bareHeader : ByteArray := ofBytes [49, 10, 109, 97, 105, 110, 10, 10, 10, 10]

/-- Seven literals, the last byte three times more, and the end of the block. -/
def bareHeaderStream : ByteArray :=
  ofBytes [120, 156, 51, 228, 202, 77, 204, 204, 227, 2, 2, 0, 13, 93, 2, 9]

def firstSector : List UInt8 :=
  (List.range 256).map (fun n => UInt8.ofNat (167 * n)) ++
    (List.range 256).map (fun n => UInt8.ofNat (101 * n))

def secondSector : List UInt8 := List.replicate 512 7

theorem length_firstSector : firstSector.length = 512 := by
  rw [firstSector, List.length_append, List.length_map, List.length_map, List.length_range]

theorem length_secondSector : secondSector.length = 512 := List.length_replicate

theorem size_twoSectors : (ofBytes (firstSector ++ secondSector)).size = 1024 := by
  rw [size_ofBytes, List.length_append, length_firstSector, length_secondSector]

theorem buffered_twoSectors : (ofBytes (firstSector ++ secondSector)).size < bufferLimit := by
  rw [size_twoSectors]
  decide

/-- A sector in each segment, and nothing known of the case. -/
def sample : Acquisition where
  media := ofBytes (firstSector ++ secondSector)
  sectorsPerChunk := 1
  chunksPerSegment := 1
  fields := []
  deflate := fun data =>
    if data.data = bareHeader.data then bareHeaderStream else Zlib.plainStream data
  whole := ⟨2, size_twoSectors⟩
  buffered := buffered_twoSectors
  sectors_pos := Nat.zero_lt_one
  chunks_pos := Nat.zero_lt_one

theorem headerText_sample : sample.headerText = bareHeader := by rfl

theorem chunkSize_sample : sample.chunkSize = 512 := rfl

theorem chunkCount_sample : sample.chunkCount = 2 := by
  have size : sample.media.size = 1024 := size_twoSectors
  rw [chunkCount, size]
  rfl

theorem segmentCount_sample : sample.segmentCount = 2 := by
  rw [segmentCount, chunkCount_sample]
  rfl

theorem chunk_sample_zero : sample.chunk 0 = ofBytes firstSector := by
  have split : sample.media = ofBytes firstSector ++ ofBytes secondSector := ofBytes_append _ _
  have size : (ofBytes firstSector).size = sample.chunkSize := length_firstSector
  rw [chunk, Nat.zero_mul, split]
  exact slice_front size _

theorem chunk_sample_one : sample.chunk 1 = ofBytes secondSector := by
  have split : sample.media = ofBytes firstSector ++ (ofBytes secondSector ++ .empty) := by
    rw [ByteArray.append_empty]
    exact ofBytes_append _ _
  have first : (ofBytes firstSector).size = sample.chunkSize := length_firstSector
  have second : (ofBytes secondSector).size = sample.chunkSize := length_secondSector
  rw [chunk, Nat.one_mul, split]
  exact slice_middle first second _

set_option maxRecDepth 20000 in
theorem decode?_bareHeaderStream : Zlib.decode? bareHeaderStream = some bareHeader := by
  have mark : Zlib.Bits.bit? ⟨bareHeaderStream, 16⟩ = some (1, ⟨bareHeaderStream, 17⟩) := by rfl
  have kind : Zlib.Bits.number? 2 ⟨bareHeaderStream, 17⟩ =
      some (1, ⟨bareHeaderStream, 19⟩) := by rfl
  have literal :
      ∀ entry ∈ [(19, 49), (27, 10), (35, 109), (43, 97), (51, 105), (59, 110), (67, 10)],
      Zlib.element? Zlib.fixedLiterals Zlib.fixedDistances ⟨bareHeaderStream, entry.1⟩ =
        some (.literal entry.2, ⟨bareHeaderStream, entry.1 + 8⟩) := by
    intro entry listed
    simp only [List.mem_cons, List.not_mem_nil, or_false] at listed
    rcases listed with rfl | rfl | rfl | rfl | rfl | rfl | rfl <;> rfl
  have copied : Zlib.element? Zlib.fixedLiterals Zlib.fixedDistances ⟨bareHeaderStream, 75⟩ =
      some (.copy 3 1, ⟨bareHeaderStream, 87⟩) := by rfl
  have stopped : Zlib.element? Zlib.fixedLiterals Zlib.fixedDistances ⟨bareHeaderStream, 87⟩ =
      some (.stop, ⟨bareHeaderStream, 94⟩) := by rfl
  have block : Zlib.block? 1 ⟨bareHeaderStream, 19⟩ .empty =
      some (bareHeader, ⟨bareHeaderStream, 94⟩) := by
    rw [Zlib.block?_fixed, Zlib.elements_literal (literal (19, 49) (by decide)),
      Zlib.elements_literal (literal (27, 10) (by decide)),
      Zlib.elements_literal (literal (35, 109) (by decide)),
      Zlib.elements_literal (literal (43, 97) (by decide)),
      Zlib.elements_literal (literal (51, 105) (by decide)),
      Zlib.elements_literal (literal (59, 110) (by decide)),
      Zlib.elements_literal (literal (67, 10) (by decide)), Zlib.elements_copy copied,
      Zlib.elements_stop stopped]
    rfl
  have taken : Zlib.Bits.take? ⟨bareHeaderStream, 94⟩ 4 =
      some (ofBytes [13, 93, 2, 9], ⟨bareHeaderStream, 128⟩) := by rfl
  have sum : Zlib.bigEndian (ofBytes [13, 93, 2, 9]) = Zlib.adler32 bareHeader := by rfl
  have header : (2 ≤ bareHeaderStream.size && Zlib.isHeader (numberAt bareHeaderStream 0 1)
      (numberAt bareHeaderStream 1 1)) = true := by rfl
  rw [Zlib.decode?, header, if_pos rfl, Zlib.inflateFrom_block mark kind block, if_pos rfl]
  dsimp only
  rw [taken]
  exact if_pos sum

theorem inflates_sample (data : ByteArray) :
    Zlib.decode? (sample.deflate data) = some data := by
  have unfolded : sample.deflate data =
    if data.data = bareHeader.data then bareHeaderStream else Zlib.plainStream data := rfl
  rw [unfolded]
  by_cases bare : data.data = bareHeader.data
  · rw [if_pos bare, ByteArray.ext bare]
    exact decode?_bareHeaderStream
  · rw [if_neg bare]
    exact Zlib.decode?_plainStream data

theorem size_deflate_sample_le {data : ByteArray} (small : data.size ≤ 512) :
    (sample.deflate data).size ≤ 523 := by
  have unfolded : sample.deflate data =
    if data.data = bareHeader.data then bareHeaderStream else Zlib.plainStream data := rfl
  rw [unfolded]
  split
  · decide
  · rw [Zlib.size_plainStream (Nat.le_trans small (by decide))]
    omega

def sectorwise (media : ByteArray) (whole : sectorSize ∣ media.size)
    (buffered : media.size < bufferLimit) : Acquisition :=
  { sample with media, whole, buffered }

section Sectorwise

variable {media : ByteArray} {whole : sectorSize ∣ media.size} {buffered : media.size < bufferLimit}

theorem size_stored_sectorwise_le (index : Nat) :
    ((sectorwise media whole buffered).stored index).size ≤ 523 := by
  have chunk : ((sectorwise media whole buffered).chunk index).size ≤ 512 := size_chunk_le index
  unfold stored
  split
  · exact size_deflate_sample_le chunk
  · rw [ByteArray.size_append, size_zeros]
    omega

theorem size_segmentFile_sectorwise_lt (segment : Nat) :
    ((sectorwise media whole buffered).segmentFile segment).size < 1 <<< 31 := by
  generalize made : sectorwise media whole buffered = a
  have size := size_segmentFile (a := a) segment
  have held : a.held segment ≤ 1 := by
    rw [← made]
    exact Nat.min_le_left _ _
  have stop : a.sectorsStop segment ≤ a.start segment 1 := start_le_start held
  have step : a.start segment 1 = a.start segment 0 +
    (a.stored (a.firstChunk segment + 0)).size := start_succ segment 0
  have stored : (a.stored (a.firstChunk segment + 0)).size ≤ 523 := by
    rw [← made]
    exact size_stored_sectorwise_le _
  have first : a.start segment 0 = a.sectorsOffset segment + Descriptor.length := rfl
  have header : (a.deflate a.headerText).size ≤ 523 := by
    rw [← made]
    exact size_deflate_sample_le (show sample.headerText.size ≤ 512 by
      rw [headerText_sample]; decide)
  have leading : Content.totalSize (a.leading segment) ≤ 76 + 523 + (76 + 94) := by
    unfold Acquisition.leading
    split
    · rw [Content.totalSize_cons, Content.totalSize_cons, Content.totalSize_nil, Content.size,
        Content.size, size_volumeData, Descriptor.length]
      exact Nat.add_le_add_right (Nat.add_le_add_left header 76) 170
    · exact Nat.zero_le _
  rw [entriesOffset, Table.entryLength, Table.headerLength, Descriptor.length] at size
  rw [sectorsOffset, fileHeaderSize, Descriptor.length] at first
  rw [size, Nat.one_shiftLeft]
  omega

end Sectorwise

theorem size_segmentFile_sample_lt (segment : Nat) :
    (sample.segmentFile segment).size < 1 <<< 31 :=
  size_segmentFile_sectorwise_lt segment

theorem fits_sample : sample.Fits := by
  refine ⟨?_, fun segment _ => size_segmentFile_sample_lt segment⟩
  rw [chunkCount_sample]
  decide

def sampleStore (first second : ByteArray) : FileStore where
  entries := [
    (["work"], .directory),
    (["case.E01", "work"], .regular 0),
    (["case.E02", "work"], .regular 1)]
  contents := #[first, second]
  workingDirectory := ["work"]

def samplePaths : List Path := [⟨"case.E01"⟩, ⟨"case.E02"⟩]

theorem bytesAt_sampleStore (first second : ByteArray) :
    samplePaths.map (sampleStore first second).bytesAt = [first, second] := by
  rfl

theorem hasFile_sampleStore {first second : ByteArray} (hf : first.size < 1 <<< 31)
    (hs : second.size < 1 <<< 31) :
    ∀ path ∈ samplePaths, (sampleStore first second).HasFile path := by
  have wide : 1 <<< 31 < FileStore.offsetLimit := by decide
  intro path listed
  simp only [samplePaths, List.mem_cons, List.not_mem_nil, or_false] at listed
  rcases listed with rfl | rfl
  · exact ⟨0, rfl, rfl, Nat.lt_trans hf wide⟩
  · exact ⟨1, rfl, rfl, Nat.lt_trans hs wide⟩

def wholeStore : FileStore := sampleStore (sample.segmentFile 0) (sample.segmentFile 1)

theorem segmentFiles_sample :
    sample.segmentFiles = [sample.segmentFile 0, sample.segmentFile 1] := by
  rw [segmentFiles, segmentCount_sample]
  rfl

/-! ## Reading back -/

/-- The files of acquired media open, with as few handles as may be, to as many bytes as were
acquired, and after any reads a read gives exactly the acquired bytes of its range. -/
theorem readAt_eq_media (fits : a.Fits)
    (inflates : ∀ data, Zlib.decode? (a.deflate data) = some data)
    (files : ∀ path ∈ paths, store.HasFile path)
    (bytes : paths.map store.bytesAt = a.segmentFiles) (maxOpen : Nat) :
    ∃ reader, Reader.openParts store paths maxOpen = .ok reader ∧
      reader.mediaSize = a.media.size ∧
      ∀ (history : List (Nat × Nat)) (offset length : Nat),
        (Reader.readAt store (reader.afterReads store history) offset length).1 =
          .ok (slice a.media offset length) := by
  have supplied : a.Supplied store paths (a.cutSet 0 (a.segmentFile 0).size) :=
    supplied_cutSet (Nat.le_refl _) files (bytes.trans (cutFiles_size 0).symm)
  have accepted : ∀ cut ∈ a.cutSet 0 (a.segmentFile 0).size,
      ¬ a.Refused cut.segment cut.length := by
    intro cut listed
    obtain ⟨index, -, rfl⟩ := List.mem_map.mp listed
    rw [cutAt_size]
    exact not_refused_size index
  obtain ⟨reader, success⟩ := exists_openParts fits inflates supplied accepted
    ⟨_, List.mem_of_getElem? (getElem?_cutSet segmentCount_pos), rfl, volumeStop_le⟩ maxOpen
  have opened := opened_of_openParts fits inflates supplied success
  refine ⟨reader, success, opened.mediaSize_eq, ?_⟩
  intro history offset length
  rw [opened.readAt_afterReads]
  by_cases past : a.media.size ≤ offset
  · rw [Nat.sub_eq_zero_of_le past, Nat.min_zero, Reader.assembled, if_pos rfl,
      slice_of_size_le past]
  · have every : ∀ index, index * a.chunkSize < a.media.size →
        reader.decoded store index = .ok (a.chunk index) :=
      fun index within =>
        opened.decoded_whole fits inflates supplied ((lt_chunkCount index).mpr within)
    rw [Reader.assembled_complete chunkSize_pos every (by omega), slice_min]

set_option maxRecDepth 20000 in
/-- A read over both segments, after two others, through one handle. -/
theorem readAt_sample :
    sample.Fits ∧ (∀ data, Zlib.decode? (sample.deflate data) = some data) ∧
      (∀ path ∈ samplePaths, wholeStore.HasFile path) ∧
      samplePaths.map wholeStore.bytesAt = sample.segmentFiles ∧
      ∃ reader, Reader.openParts wholeStore samplePaths 1 = .ok reader ∧
        reader.mediaSize = 1024 ∧
        (Reader.readAt wholeStore (reader.afterReads wholeStore [(600, 5), (0, 2000)]) 510 4).1 =
          .ok (ofBytes [54, 155, 7, 7]) := by
  have files := hasFile_sampleStore (size_segmentFile_sample_lt 0) (size_segmentFile_sample_lt 1)
  have bytes := (bytesAt_sampleStore _ _).trans segmentFiles_sample.symm
  obtain ⟨reader, opened, size, reads⟩ :=
    readAt_eq_media fits_sample inflates_sample files bytes 1
  refine ⟨fits_sample, inflates_sample, files, bytes, reader, opened,
    size.trans size_twoSectors, (reads [(600, 5), (0, 2000)] 510 4).trans ?_⟩
  rfl

end EvidencePages.Ewf.Acquisition

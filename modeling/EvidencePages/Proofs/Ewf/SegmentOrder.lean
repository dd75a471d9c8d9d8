import EvidencePages.Proofs.Ewf.Truncation

/-!
# Reads of segments in any order

Whole segments open in whatever order they are given, and each chunk gets the
number of entries before it. Where a segment is left out, repeated or moved,
the chunks behind it are read under other numbers than their own. Segments
without the last ones keep the numbers, and reads of what is left out fail.
-/

set_option autoImplicit false

namespace EvidencePages.Ewf.Acquisition

variable {a : Acquisition} {store : FileStore} {paths : List Path}

/-! ## Reads and chunks -/

/-- Reads of an opened set give acquired bytes or fail, if and only if its chunks do. -/
theorem Opened.reads_right_iff {cuts : List Cut} {reader : Reader}
    (opened : a.Opened store paths cuts reader) :
    (∀ (history : List (Nat × Nat)) (offset length : Nat) (result : ByteArray),
      (Reader.readAt store (reader.afterReads store history) offset length).1 = .ok result →
        result = slice a.media offset length) ↔
      ∀ index < a.chunkCount, ∀ data, reader.decoded store index = .ok data →
        data = a.chunk index := by
  constructor
  · intro right index inside data decoded
    obtain ⟨-, read⟩ := opened.readAt_of_decoded inside decoded []
    rw [right [] _ _ data read, size_chunk, slice_min]
    rfl
  · intro right history offset length result read
    rw [opened.readAt_afterReads] at read
    by_cases past : a.media.size ≤ offset
    · rw [Nat.sub_eq_zero_of_le past, Nat.min_zero, Reader.assembled, if_pos rfl] at read
      cases read
      rw [slice_of_size_le past]
    · have every : ∀ index data, index * a.chunkSize < a.media.size →
          reader.decoded store index = .ok data → data = a.chunk index :=
        fun index data within => right index ((lt_chunkCount index).mpr within) data
      rw [Reader.assembled_sound chunkSize_pos every (by omega) read, slice_min]

/-! ## Numbers of chunks -/

variable (a) in
def wholeCut (segment : Nat) : Cut := ⟨segment, (a.segmentFile segment).size⟩

theorem supplied_wholeCut {order : List Nat} (known : ∀ segment ∈ order, segment < a.segmentCount)
    (files : ∀ path ∈ paths, store.HasFile path)
    (bytes : paths.map store.bytesAt = order.map a.segmentFile) :
    a.Supplied store paths (order.map a.wholeCut) := by
  refine ⟨files, ?_, ?_⟩
  · rw [bytes, List.map_map]
    apply List.map_congr_left
    intro segment listed
    exact (slice_eq_self (Nat.le_refl _)).symm
  · intro cut listed
    obtain ⟨segment, there, rfl⟩ := List.mem_map.mp listed
    exact ⟨known segment there, Nat.le_refl _⟩

theorem keptOf_wholeCut (segment : Nat) : a.keptOf (a.wholeCut segment) = a.held segment :=
  kept_size segment

variable (a) in
/-- The chunks of segments in this order. Each one is read under its position. -/
def listed (order : List Nat) : List Nat :=
  order.flatMap fun segment => List.range' (a.firstChunk segment) (a.held segment)

theorem length_listed (order : List Nat) :
    (a.listed order).length = totalOf ((order.map a.wholeCut).map a.keptOf) := by
  induction order with
  | nil => rfl
  | cons segment order ih =>
    rw [listed, List.flatMap_cons, List.length_append, List.length_range', List.map_cons,
      List.map_cons, totalOf, keptOf_wholeCut, ← ih]
    rfl

theorem getElem?_listed {order : List Nat} {part segment : Nat}
    (found : order[part]? = some segment) {place : Nat} (held : place < a.held segment) :
    (a.listed order)[a.entriesBefore (order.map a.wholeCut) part + place]? =
      some (a.firstChunk segment + place) := by
  induction order generalizing part with
  | nil => cases found
  | cons first order ih =>
    have length : (List.range' (a.firstChunk first) (a.held first)).length = a.held first :=
      List.length_range'
    rw [listed, List.flatMap_cons, List.map_cons]
    cases part with
    | zero =>
      obtain rfl : first = segment := Option.some.inj found
      have none : a.entriesBefore (a.wholeCut first :: order.map a.wholeCut) 0 = 0 := rfl
      rw [none, Nat.zero_add, List.getElem?_append_left (by omega), List.getElem?_range' held,
        Nat.one_mul]
    | succ part =>
      have before : a.entriesBefore (a.wholeCut first :: order.map a.wholeCut) (part + 1) =
          a.held first + a.entriesBefore (order.map a.wholeCut) part := by
        rw [entriesBefore, List.take_succ_cons, List.map_cons, totalOf, keptOf_wholeCut]
        rfl
      rw [before, Nat.add_assoc, List.getElem?_append_right (by omega), length,
        Nat.add_sub_cancel_left]
      exact ih found

theorem Opened.decoded_eq_ok_iff_listed {order : List Nat} {reader : Reader}
    (opened : a.Opened store paths (order.map a.wholeCut) reader) (fits : a.Fits)
    (inflates : ∀ data, Zlib.decode? (a.deflate data) = some data)
    (supplied : a.Supplied store paths (order.map a.wholeCut)) {index : Nat}
    (inside : index < a.chunkCount) (data : ByteArray) :
    reader.decoded store index = .ok data ↔
      ∃ source, (a.listed order)[index]? = some source ∧
        a.givenFor source (a.chunk index).size = some data := by
  by_cases there : index < (a.listed order).length
  · rw [length_listed] at there
    obtain ⟨part, cut, place, found, known, same⟩ := exists_place there
    have decoded := opened.decoded_eq_ok_iff fits inflates supplied found known (same ▸ inside) data
    rw [List.getElem?_map, Option.map_eq_some_iff] at found
    obtain ⟨segment, found, rfl⟩ := found
    rw [keptOf_wholeCut] at known
    have number := getElem?_listed found known
    have short : place < a.chunksPerSegment := by
      rw [held_eq] at known
      omega
    obtain ⟨div, mod⟩ : (a.firstChunk segment + place) / a.chunksPerSegment = segment ∧
        (a.firstChunk segment + place) % a.chunksPerSegment = place := firstChunk_add_div short
    rw [← same] at decoded number
    rw [decoded, number]
    simp only [Option.some.injEq, exists_eq_left', givenFor, div, mod]
    rfl
  · have missing : totalOf ((order.map a.wholeCut).map a.keptOf) ≤ index := by
      rw [← length_listed]
      omega
    rw [List.getElem?_eq_none (Nat.not_lt.mp there)]
    constructor
    · intro decoded
      exact absurd decoded (opened.decoded_of_missing missing data)
    · rintro ⟨source, none, -⟩
      cases none

variable (a) in
/-- Each chunk that is listed in the position of another one is equal to that one or cannot be
decoded in its place. -/
def InPlace (order : List Nat) : Prop :=
  ∀ index source, index < a.chunkCount → (a.listed order)[index]? = some source →
    ∀ bytes, a.givenFor source (a.chunk index).size = some bytes → bytes = a.chunk index

theorem listed_range (count : Nat) :
    a.listed (List.range count) = List.range (min a.chunkCount (a.firstChunk count)) := by
  induction count with
  | zero =>
    rw [firstChunk, Nat.zero_mul, Nat.min_zero]
    rfl
  | succ count ih =>
    have held := held_eq (a := a) count
    have next := firstChunk_succ (a := a) count
    rw [listed] at ih
    rw [listed, List.range_succ, List.flatMap_append, ih, List.flatMap_singleton]
    by_cases inside : a.firstChunk count ≤ a.chunkCount
    · rw [Nat.min_eq_right inside, List.range_eq_range', List.range_eq_range']
      have last : min a.chunkCount (a.firstChunk (count + 1)) =
        a.firstChunk count + a.held count := by omega
      rw [last, ← List.range'_append_1, Nat.zero_add]
    · have none : a.held count = 0 := by omega
      rw [none, List.range'_zero, List.append_nil, Nat.min_eq_left (by omega),
        Nat.min_eq_left (by omega)]

theorem inPlace_range (count : Nat) : a.InPlace (List.range count) := by
  intro index source inside there bytes given
  rw [listed_range] at there
  obtain ⟨bound, same⟩ := List.getElem?_eq_some_iff.mp there
  rw [List.getElem_range bound] at same
  rw [← same, givenFor_own inside] at given
  exact (Option.some.inj given).symm

/-! ## Right reads -/

theorem openParts_wholeCut (fits : a.Fits)
    (inflates : ∀ data, Zlib.decode? (a.deflate data) = some data) {order : List Nat}
    (first : order.head? = some 0) (supplied : a.Supplied store paths (order.map a.wholeCut))
    (maxOpen : Nat) :
    ∃ reader, Reader.openParts store paths maxOpen = .ok reader ∧
      a.Opened store paths (order.map a.wholeCut) reader := by
  have accepted : ∀ cut ∈ order.map a.wholeCut, ¬ a.Refused cut.segment cut.length := by
    intro cut listed
    obtain ⟨segment, -, rfl⟩ := List.mem_map.mp listed
    exact not_refused_size segment
  have volume : a.wholeCut 0 ∈ order.map a.wholeCut :=
    List.mem_map_of_mem (List.mem_of_mem_head? first)
  obtain ⟨reader, success⟩ :=
    exists_openParts fits inflates supplied accepted ⟨_, volume, rfl, volumeStop_le⟩ maxOpen
  exact ⟨reader, success, opened_of_openParts fits inflates supplied success⟩

/-- Whole segments from the first one on, in any order and number, open, and reads of them give
acquired bytes or fail if and only if all chunks are in place. -/
theorem reads_right_iff_inPlace (fits : a.Fits)
    (inflates : ∀ data, Zlib.decode? (a.deflate data) = some data) {order : List Nat}
    (first : order.head? = some 0) (known : ∀ segment ∈ order, segment < a.segmentCount)
    (files : ∀ path ∈ paths, store.HasFile path)
    (bytes : paths.map store.bytesAt = order.map a.segmentFile) (maxOpen : Nat) :
    ∃ reader, Reader.openParts store paths maxOpen = .ok reader ∧
      ((∀ (history : List (Nat × Nat)) (offset length : Nat) (result : ByteArray),
        (Reader.readAt store (reader.afterReads store history) offset length).1 = .ok result →
          result = slice a.media offset length) ↔
        a.InPlace order) := by
  have supplied := supplied_wholeCut known files bytes
  obtain ⟨reader, success, opened⟩ := openParts_wholeCut fits inflates first supplied maxOpen
  refine ⟨reader, success, ?_⟩
  rw [opened.reads_right_iff]
  constructor
  · intro right index source inside there data given
    exact right index inside data
      ((opened.decoded_eq_ok_iff_listed fits inflates supplied inside data).mpr
        ⟨source, there, given⟩)
  · intro inPlace index inside data decoded
    obtain ⟨source, there, given⟩ :=
      (opened.decoded_eq_ok_iff_listed fits inflates supplied inside data).mp decoded
    exact inPlace index source inside there data given

/-! ## Three sectors in three segments -/

theorem size_threeSectors :
    (ofBytes (firstSector ++ (secondSector ++ firstSector))).size = 1536 := by
  rw [size_ofBytes, List.length_append, List.length_append, length_firstSector,
    length_secondSector]

def threeSectors : Acquisition :=
  sectorwise (ofBytes (firstSector ++ (secondSector ++ firstSector))) ⟨3, size_threeSectors⟩
    (by rw [size_threeSectors]; decide)

theorem chunkCount_threeSectors : threeSectors.chunkCount = 3 := by
  have size : threeSectors.media.size = 1536 := size_threeSectors
  rw [chunkCount, size]
  rfl

theorem segmentCount_threeSectors : threeSectors.segmentCount = 3 := by
  rw [segmentCount, chunkCount_threeSectors]
  rfl

theorem fits_threeSectors : threeSectors.Fits := by
  refine ⟨?_, fun segment _ => size_segmentFile_sectorwise_lt segment⟩
  rw [chunkCount_threeSectors]
  decide

theorem chunk_threeSectors :
    threeSectors.chunk 1 = ofBytes secondSector ∧ threeSectors.chunk 2 = ofBytes firstSector := by
  have first : (ofBytes firstSector).size = 512 := length_firstSector
  have second : (ofBytes secondSector).size = 512 := length_secondSector
  have parts : threeSectors.media =
      ofBytes firstSector ++ (ofBytes secondSector ++ (ofBytes firstSector ++ .empty)) := by
    rw [ByteArray.append_empty, ← ofBytes_append, ← ofBytes_append]
    rfl
  constructor
  · rw [chunk, parts]
    exact slice_middle first second _
  · rw [chunk, parts, ← ByteArray.append_assoc]
    exact slice_middle (by rw [ByteArray.size_append, first, second]; rfl) first _

def withoutLast : FileStore := sampleStore (threeSectors.segmentFile 0) (threeSectors.segmentFile 1)

theorem reads_right_without_last :
    threeSectors.Fits ∧ (∀ data, Zlib.decode? (threeSectors.deflate data) = some data) ∧
      (List.range 2).head? = some 0 ∧
      (∀ segment ∈ List.range 2, segment < threeSectors.segmentCount) ∧
      (∀ path ∈ samplePaths, withoutLast.HasFile path) ∧
      samplePaths.map withoutLast.bytesAt = (List.range 2).map threeSectors.segmentFile ∧
      ∃ reader, Reader.openParts withoutLast samplePaths 1 = .ok reader ∧
        ∀ (history : List (Nat × Nat)) (offset length : Nat) (result : ByteArray),
          (Reader.readAt withoutLast (reader.afterReads withoutLast history) offset length).1 =
            .ok result → result = slice threeSectors.media offset length := by
  have known : ∀ segment ∈ List.range 2, segment < threeSectors.segmentCount := by
    rw [segmentCount_threeSectors]
    decide
  have files : ∀ path ∈ samplePaths, withoutLast.HasFile path :=
    hasFile_sampleStore (size_segmentFile_sectorwise_lt 0) (size_segmentFile_sectorwise_lt 1)
  have bytes := bytesAt_sampleStore (threeSectors.segmentFile 0) (threeSectors.segmentFile 1)
  obtain ⟨reader, success, right⟩ := reads_right_iff_inPlace fits_threeSectors inflates_sample
    rfl known files bytes 1
  exact ⟨fits_threeSectors, inflates_sample, rfl, known, files, bytes, reader, success,
    right.mpr (inPlace_range 2)⟩

def gapStore : FileStore where
  entries := [
    (["work"], .directory),
    (["case.E01", "work"], .regular 0),
    (["case.E03", "work"], .regular 1)]
  contents := #[threeSectors.segmentFile 0, threeSectors.segmentFile 2]
  workingDirectory := ["work"]

def gapPaths : List Path := [⟨"case.E01"⟩, ⟨"case.E03"⟩]

theorem hasFile_gapStore : ∀ path ∈ gapPaths, gapStore.HasFile path := by
  have wide : 1 <<< 31 < FileStore.offsetLimit := by decide
  intro path listed
  simp only [gapPaths, List.mem_cons, List.not_mem_nil, or_false] at listed
  rcases listed with rfl | rfl
  · exact ⟨0, rfl, rfl, Nat.lt_trans (size_segmentFile_sectorwise_lt 0) wide⟩
  · exact ⟨1, rfl, rfl, Nat.lt_trans (size_segmentFile_sectorwise_lt 2) wide⟩

/-- Without the second segment, the third sector is read in the place of the second. -/
theorem readAt_without_second :
    threeSectors.Fits ∧ (∀ data, Zlib.decode? (threeSectors.deflate data) = some data) ∧
      [0, 2].head? = some 0 ∧ (∀ segment ∈ [0, 2], segment < threeSectors.segmentCount) ∧
      (∀ path ∈ gapPaths, gapStore.HasFile path) ∧
      gapPaths.map gapStore.bytesAt = [0, 2].map threeSectors.segmentFile ∧
      ∃ reader, Reader.openParts gapStore gapPaths 1 = .ok reader ∧
        (Reader.readAt gapStore reader 512 512).1 = .ok (ofBytes firstSector) ∧
        slice threeSectors.media 512 512 = ofBytes secondSector ∧
        ofBytes firstSector ≠ ofBytes secondSector := by
  obtain ⟨second, third⟩ := chunk_threeSectors
  have known : ∀ segment ∈ [0, 2], segment < threeSectors.segmentCount := by
    rw [segmentCount_threeSectors]
    decide
  have bytes : gapPaths.map gapStore.bytesAt = [0, 2].map threeSectors.segmentFile := by rfl
  have supplied := supplied_wholeCut known hasFile_gapStore bytes
  obtain ⟨reader, success, opened⟩ :=
    openParts_wholeCut fits_threeSectors inflates_sample rfl supplied 1
  have inside : 1 < threeSectors.chunkCount := by
    rw [chunkCount_threeSectors]
    decide
  have listed : (threeSectors.listed [0, 2])[1]? = some 2 := by
    have first : threeSectors.held 0 = 1 := by
      rw [held_eq, chunkCount_threeSectors]
      rfl
    have last : threeSectors.held 2 = 1 := by
      rw [held_eq, chunkCount_threeSectors]
      rfl
    simp [Acquisition.listed, first, last]
    rfl
  have size : (threeSectors.chunk 1).size = 512 := by
    rw [second]
    exact length_secondSector
  have given :
      threeSectors.givenFor 2 (threeSectors.chunk 1).size = some (ofBytes firstSector) := by
    have there : 2 < threeSectors.chunkCount := by
      rw [chunkCount_threeSectors]
      decide
    have own := givenFor_own there
    rw [third, size_ofBytes, length_firstSector] at own
    rw [size]
    exact own
  have decoded := (opened.decoded_eq_ok_iff_listed fits_threeSectors inflates_sample supplied inside
    (ofBytes firstSector)).mpr ⟨2, listed, given⟩
  have read := (opened.readAt_of_decoded inside decoded []).2
  rw [size] at read
  refine ⟨fits_threeSectors, inflates_sample, rfl, known, hasFile_gapStore, bytes, reader, success,
    read, second, ?_⟩
  intro same
  have heads := congrArg (fun bytes : ByteArray => bytes.data.toList.head?) same
  cases heads

end EvidencePages.Ewf.Acquisition

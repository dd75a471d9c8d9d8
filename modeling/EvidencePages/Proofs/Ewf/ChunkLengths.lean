import EvidencePages.Proofs.Ewf.Caching

/-!
# Chunks have the length of their index

A volume tells the length of each chunk, and its numbers may be anything. What
a reader gives or keeps for an index has that length whatever the segment files
hold, then and later. A position in the media lies inside the chunk of its
index, so that a read goes on until it is full or a chunk fails.
-/

set_option autoImplicit false

namespace EvidencePages.Ewf

theorem Volume.mod_lt_chunkLength (volume : Volume) (positive : 0 < volume.chunkSize.toNat)
    {offset : Nat} (inside : offset < volume.mediaSize) :
    offset % volume.chunkSize.toNat < volume.chunkLength (offset / volume.chunkSize.toNat) := by
  have place := Nat.div_add_mod' offset volume.chunkSize.toNat
  have rest := Nat.mod_lt offset positive
  rw [chunkLength]
  omega

theorem size_readBytes_le {store : FileStore} {handle : Handle} {offset length : Nat}
    {bytes : ByteArray} (read : readBytes store handle offset length = .ok bytes) :
    bytes.size ≤ length := by
  unfold readBytes at read
  cases full : store.readFull handle offset length with
  | error cause =>
    rw [full] at read
    cases read
  | ok found =>
    rw [full] at read
    cases read
    exact FileStore.size_readFull_le full

theorem isFatal_of_readBytes {store : FileStore} {handle : Handle} {offset length : Nat}
    {cause : ContainerError} (failed : readBytes store handle offset length = .error cause) :
    cause.isFatal = false := by
  unfold readBytes at failed
  cases full : store.readFull handle offset length with
  | error _ =>
    rw [full] at failed
    cases failed
    rfl
  | ok bytes =>
    rw [full] at failed
    cases failed

namespace Reader

/-! ## One chunk -/

/-- All that a decoded chunk tells: where its bytes were stored, compressed or not, and that there
was a buffer for them. -/
theorem stored_of_decodeChunk {store : FileStore} {handle : Handle} {volume : Volume}
    {segmentSize index : Nat} {location : ChunkLocation} {expected : Nat} {data : ByteArray}
    (decoded : decodeChunk store handle volume segmentSize index location expected = .ok data) :
    location.offset.toNat < segmentSize ∧ expected < bufferLimit ∧
      ((location.compressed = true ∧ doublesOver volume = false ∧
          ∃ length raw inflated,
            readBytes store handle location.offset.toNat length = .ok raw ∧
              Zlib.decode? raw = some inflated ∧ expected ≤ inflated.size ∧
                data = slice inflated 0 expected) ∨
        (location.compressed ≠ true ∧ expected ≤ data.size ∧
          readBytes store handle location.offset.toNat expected = .ok data)) := by
  unfold decodeChunk at decoded
  dsimp only at decoded
  split at decoded
  · cases decoded
  rename_i inside
  split at decoded
  · rename_i compressed
    split at decoded
    · cases decoded
    rename_i counted
    split at decoded
    · cases decoded
    rename_i raw read
    split at decoded
    · cases decoded
    rename_i narrow
    split at decoded
    · cases decoded
    rename_i inflated found
    split at decoded
    · cases decoded
    rename_i whole
    cases decoded
    exact ⟨Nat.not_le.mp inside, Nat.not_le.mp narrow, .inl ⟨compressed,
      Bool.eq_false_iff.mpr counted, _, raw, inflated, read, found, Nat.not_lt.mp whole, rfl⟩⟩
  · rename_i plain
    split at decoded
    · cases decoded
    rename_i narrow
    split at decoded
    · cases decoded
    rename_i raw read
    split at decoded
    · cases decoded
    rename_i whole
    cases decoded
    exact ⟨Nat.not_le.mp inside, Nat.not_le.mp narrow,
      .inr ⟨plain, Nat.not_lt.mp whole, read⟩⟩

theorem decodeChunk_eq_ok {store : FileStore} {handle : Handle} {volume : Volume}
    {segmentSize index : Nat} {location : ChunkLocation} {expected : Nat} {data : ByteArray}
    (decoded : decodeChunk store handle volume segmentSize index location expected = .ok data) :
    data.size = expected ∧ expected < bufferLimit ∧
      (location.compressed = true → doublesOver volume = false) := by
  obtain ⟨-, narrow, stored⟩ := stored_of_decodeChunk decoded
  rcases stored with ⟨-, counted, -, -, inflated, -, -, whole, rfl⟩ | ⟨plain, whole, read⟩
  · refine ⟨?_, narrow, fun _ => counted⟩
    rw [size_slice]
    omega
  · exact ⟨Nat.le_antisymm (size_readBytes_le read) whole, narrow,
      fun compressed => absurd compressed plain⟩

/-- What may be given for the chunk of an index. -/
structure Suits (reader : Reader) (index : Nat) (data : ByteArray) : Prop where
  length : data.size = reader.volume.chunkLength index
  narrow : reader.volume.chunkLength index < bufferLimit
  counted : ∀ location, reader.chunks[index]? = some location → location.compressed = true →
    doublesOver reader.volume = false

theorem loadChunk_eq_ok {store : FileStore} {reader : Reader} {index : Nat} {data : ByteArray}
    (loaded : (loadChunk store reader index).1 = .ok data) : reader.Suits index data := by
  unfold loadChunk at loaded
  split at loaded
  · cases loaded
  rename_i location listed
  split at loaded
  · cases loaded
  · obtain ⟨length, narrow, counted⟩ := decodeChunk_eq_ok loaded
    refine ⟨length, narrow, fun other also compressed => ?_⟩
    cases listed.symm.trans also
    exact counted compressed

theorem size_of_decoded {store : FileStore} {reader : Reader} {index : Nat} {data : ByteArray}
    (decoded : reader.decoded store index = .ok data) :
    data.size = reader.volume.chunkLength index := by
  unfold Reader.decoded at decoded
  split at decoded
  · cases decoded
  split at decoded
  · cases decoded
  · exact (decodeChunk_eq_ok decoded).1

/-! ## Readers over any files -/

/-- Chunks have a size, the table names no segment that is not there, and each chunk that is kept
has the length of its index. -/
structure Regular (reader : Reader) : Prop where
  sized : 0 < reader.chunkSize
  located : ∀ location ∈ reader.chunks, location.segment < reader.segmentSizes.size
  kept : ∀ index data, Recency.find? reader.cache.chunks index = some data →
    reader.Suits index data

/-- A reader that reads of chunks lead to, each of them over files as they were then. -/
inductive Reached (opened : Reader) : Reader → Prop where
  | opened : Reached opened opened
  | chunk {reader : Reader} (reached : Reached opened reader) (store : FileStore) (index : Nat) :
      Reached opened (readChunk store reader index).2

/-- What holds of the chunks that are kept and of those that are loaded holds of those that are
given, and of those that are kept then. -/
theorem readChunk_keeps {reader : Reader} {store : FileStore} {index : Nat}
    {holds : Nat → ByteArray → Prop}
    (kept : ∀ other data, Recency.find? reader.cache.chunks other = some data → holds other data)
    (loads : ∀ data, (loadChunk store reader index).1 = .ok data → holds index data) :
    (∀ other data,
        Recency.find? (readChunk store reader index).2.cache.chunks other = some data →
          holds other data) ∧
      ∀ data, (readChunk store reader index).1 = .ok data → holds index data := by
  unfold readChunk
  cases hit : reader.cache.get index with
  | mk found cache =>
    cases found with
    | some data =>
      obtain ⟨there, before⟩ := ChunkCache.find?_of_get hit
      refine ⟨fun other stored listed => kept other stored (before other stored listed), ?_⟩
      intro given same
      cases same
      exact kept index data there
    | none =>
      obtain ⟨handles, frame⟩ := loadChunk_frame store reader index
      cases load : loadChunk store reader index with
      | mk result next =>
        rw [load] at frame loads
        dsimp only at frame loads ⊢
        rw [frame]
        cases result with
        | error cause => exact ⟨kept, nofun⟩
        | ok data =>
          refine ⟨?_, loads⟩
          intro other stored listed
          rcases ChunkCache.find?_insert listed with ⟨rfl, rfl⟩ | before
          · exact loads stored rfl
          · exact kept other stored before

theorem readChunk_regular {reader : Reader} (regular : reader.Regular) (store : FileStore)
    (index : Nat) :
    (readChunk store reader index).2.Regular ∧
      ∀ data, (readChunk store reader index).1 = .ok data → reader.Suits index data := by
  obtain ⟨handles, chunks, frame⟩ := readChunk_frame store reader index
  have loads : ∀ data, (loadChunk store reader index).1 = .ok data → reader.Suits index data :=
    fun _ => loadChunk_eq_ok
  obtain ⟨kept, given⟩ := readChunk_keeps regular.kept loads
  rw [frame] at kept
  rw [frame]
  refine ⟨⟨regular.sized, regular.located, fun other data listed => ?_⟩, given⟩
  obtain ⟨length, narrow, counted⟩ := kept other data listed
  exact ⟨length, narrow, counted⟩

namespace Reached

variable {opened reader : Reader}

theorem frame (reached : Reached opened reader) :
    ∃ handles chunks, reader = opened.remembering handles chunks := by
  induction reached with
  | opened => exact ⟨opened.pool.handles, opened.cache.chunks, rfl⟩
  | @chunk reader reached store index ih =>
    obtain ⟨handles, chunks, before⟩ := ih
    obtain ⟨handles, chunks, step⟩ := readChunk_frame store reader index
    exact ⟨handles, chunks, by rw [step, before]; rfl⟩

theorem volume_eq (reached : Reached opened reader) : reader.volume = opened.volume := by
  obtain ⟨handles, chunks, frame⟩ := reached.frame
  rw [frame]
  rfl

theorem regular (regular : opened.Regular) (reached : Reached opened reader) :
    reader.Regular := by
  induction reached with
  | opened => exact regular
  | chunk reached store index ih => exact (readChunk_regular ih store index).1

theorem readFrom (reached : Reached opened reader) (store : FileStore) (offset length : Nat) :
    Reached opened (Reader.readFrom store reader offset length).2 := by
  fun_induction Reader.readFrom store reader offset length with
  | case1 reader offset => exact reached
  | case2 reader offset length some cause next read =>
    have step := reached.chunk store (offset / reader.chunkSize)
    rwa [read] at step
  | case3 reader offset length some chunk next read piece last =>
    have step := reached.chunk store (offset / reader.chunkSize)
    rwa [read] at step
  | case4 reader offset length some chunk next read piece more cause final tail ih =>
    have step := reached.chunk store (offset / reader.chunkSize)
    rw [read] at step
    have rest := ih step
    rwa [tail] at rest
  | case5 reader offset length some chunk next read piece more bytes final tail ih =>
    have step := reached.chunk store (offset / reader.chunkSize)
    rw [read] at step
    have rest := ih step
    rwa [tail] at rest

theorem readAt (reached : Reached opened reader) (store : FileStore) (offset length : Nat) :
    Reached opened (Reader.readAt store reader offset length).2 := by
  by_cases beyond : UInt64.size ≤ reader.mediaSize
  · rw [readAt_of_uncounted beyond]
    exact reached
  · rw [readAt_of_counted beyond]
    exact reached.readFrom store offset _

end Reached

/-! ## Whole reads -/

theorem volume_of_readChunk {store : FileStore} {reader next : Reader} {index : Nat}
    {result : Except ContainerError ByteArray}
    (read : readChunk store reader index = (result, next)) : next.volume = reader.volume := by
  obtain ⟨handles, chunks, frame⟩ := readChunk_frame store reader index
  rw [read] at frame
  rw [show next = reader.remembering handles chunks from frame]
  rfl

theorem mod_lt_size {reader : Reader} (regular : reader.Regular) {store : FileStore}
    {offset : Nat} (inside : offset < reader.mediaSize) {chunk : ByteArray}
    (read : (readChunk store reader (offset / reader.chunkSize)).1 = .ok chunk) :
    offset % reader.chunkSize < chunk.size := by
  rw [((readChunk_regular regular store _).2 chunk read).length]
  exact reader.volume.mod_lt_chunkLength regular.sized inside

theorem size_readFrom {reader : Reader} (regular : reader.Regular) {store : FileStore}
    {offset length : Nat} (inside : offset + length ≤ reader.mediaSize) {bytes : ByteArray}
    (given : (readFrom store reader offset length).1 = .ok bytes) : bytes.size = length := by
  fun_induction readFrom store reader offset length generalizing bytes with
  | case1 reader offset =>
    cases given
    rfl
  | case2 reader offset length some cause next read => cases given
  | case3 reader offset length some chunk next read piece last =>
    -- The chunk of a position in the media reaches behind it.
    have reach := mod_lt_size regular (by omega) (congrArg Prod.fst read)
    have size : piece.size = min length (chunk.size - offset % reader.chunkSize) :=
      size_slice chunk _ _
    omega
  | case4 reader offset length some chunk next read piece more cause final tail ih => cases given
  | case5 reader offset length some chunk next read piece more rest final tail ih =>
    cases given
    have kept := (readChunk_regular regular store (offset / reader.chunkSize)).1
    rw [read] at kept
    have size : piece.size = min length (chunk.size - offset % reader.chunkSize) :=
      size_slice chunk _ _
    have media : next.mediaSize = reader.mediaSize :=
      congrArg Volume.mediaSize (volume_of_readChunk read)
    have later := ih kept (by omega) (congrArg Prod.fst tail)
    rw [ByteArray.size_append]
    omega

theorem size_readAt {reader : Reader} (regular : reader.Regular) {store : FileStore}
    {offset length : Nat} {bytes : ByteArray}
    (read : (readAt store reader offset length).1 = .ok bytes) :
    bytes.size = min length (reader.mediaSize - offset) := by
  by_cases beyond : UInt64.size ≤ reader.mediaSize
  · rw [readAt_of_uncounted beyond] at read
    cases read
  rw [readAt_of_counted beyond] at read
  by_cases past : reader.mediaSize ≤ offset
  · rw [Nat.sub_eq_zero_of_le past, Nat.min_zero, readFrom, if_pos rfl] at read
    cases read
    rw [Nat.sub_eq_zero_of_le past, Nat.min_zero]
    rfl
  · exact size_readFrom regular (by omega) read

end Reader

end EvidencePages.Ewf

import EvidencePages.Ewf.Reader
import EvidencePages.Proofs.Store.HandlePool

/-!
# A reader's memory does not show

A reader remembers open handles and decoded chunks, and reads change nothing
else of it. Whatever it remembers is what the files give, so that a read
answers as one that decodes every chunk afresh.
-/

set_option autoImplicit false

namespace EvidencePages

theorem HandlePool.fetch_frame (store : FileStore) (pool : HandlePool) (index : Nat) :
    ∃ handles, (fetch store pool index).2 = { pool with handles } := by
  unfold fetch
  cases pool.paths[index]? with
  | none => exact ⟨_, rfl⟩
  | some path =>
    cases Recency.find? pool.handles index with
    | some handle => exact ⟨_, rfl⟩
    | none =>
      dsimp only
      cases store.openFile path <;> exact ⟨_, rfl⟩

namespace Ewf

namespace ChunkCache

theorem get_frame (cache : ChunkCache) (index : Nat) :
    ∃ chunks, (cache.get index).2 = { cache with chunks } := by
  unfold get
  cases Recency.find? cache.chunks index <;> exact ⟨_, rfl⟩

theorem insert_frame (cache : ChunkCache) (index : Nat) (data : ByteArray) :
    ∃ chunks, cache.insert index data = { cache with chunks } := by
  unfold insert
  cases Recency.find? cache.chunks index <;> exact ⟨_, rfl⟩

theorem find?_of_get {cache : ChunkCache} {index : Nat} {data : ByteArray} {next : ChunkCache}
    (hit : cache.get index = (some data, next)) :
    Recency.find? cache.chunks index = some data ∧
      ∀ other kept, Recency.find? next.chunks other = some kept →
        Recency.find? cache.chunks other = some kept := by
  unfold get at hit
  cases found : Recency.find? cache.chunks index with
  | none => rw [found] at hit; cases hit
  | some kept =>
    rw [found] at hit
    cases hit
    refine ⟨rfl, ?_⟩
    intro other kept there
    rw [Recency.find?_touch] at there
    split at there
    · rename_i same
      rw [same, found]
      exact there
    · exact there

theorem find?_insert {cache : ChunkCache} {index other : Nat} {data kept : ByteArray}
    (there : Recency.find? (cache.insert index data).chunks other = some kept) :
    other = index ∧ kept = data ∨ Recency.find? cache.chunks other = some kept := by
  unfold insert at there
  cases found : Recency.find? cache.chunks index with
  | some old =>
    rw [found] at there
    exact .inr there
  | none =>
    rw [found] at there
    dsimp only at there
    rw [Recency.find?_cons] at there
    split at there
    · rename_i same
      exact .inl ⟨same, (Option.some.inj there).symm⟩
    · exact .inr (Recency.find?_of_makeRoom there)

end ChunkCache

namespace Reader

/-! ## What opens -/

theorem ofOpening_eq_ok_iff {opening : Opening} {reader : Reader} :
    ofOpening opening = .ok reader ↔ ∃ volume, opening.volume = some volume ∧
      volume.chunkSize ≠ 0 ∧
        reader = {
          pool := opening.pool
          segmentSizes := opening.segmentSizes
          volume
          chunks := opening.chunks.take volume.chunkCount.toNat
          caseInfo := opening.caseInfo.getD {}
          cache := { maxEntries := cachedChunks } } := by
  rw [ofOpening]
  cases opening.volume with
  | none => simp
  | some volume =>
    dsimp only
    by_cases bare : volume.chunkSize = 0
    · simp [bare]
    · rw [if_neg bare]
      constructor
      · intro made
        cases made
        exact ⟨volume, rfl, bare, rfl⟩
      · rintro ⟨_, ⟨⟩, -, rfl⟩
        rfl

theorem openParts_eq_ok_iff {store : FileStore} {parts : List Path} {maxOpen : Nat}
    {reader : Reader} :
    openParts store parts maxOpen = .ok reader ↔ parts ≠ [] ∧
      ∃ opening, addSegments store parts.length 0 { pool := .ofPaths parts maxOpen } =
          .ok opening ∧ ofOpening opening = .ok reader := by
  rw [openParts]
  by_cases none : parts = []
  · simp [none]
  · rw [if_neg none]
    cases addSegments store parts.length 0 { pool := .ofPaths parts maxOpen } with
    | error cause => simp
    | ok opening => simp [none]

/-! ## What a read changes -/

def remembering (reader : Reader) (handles : Recency.Entries Handle)
    (chunks : Recency.Entries ByteArray) : Reader :=
  { reader with pool := { reader.pool with handles }, cache := { reader.cache with chunks } }

theorem loadChunk_frame (store : FileStore) (reader : Reader) (index : Nat) :
    ∃ handles, (loadChunk store reader index).2 =
      reader.remembering handles reader.cache.chunks := by
  unfold loadChunk
  cases reader.chunks[index]? with
  | none => exact ⟨_, rfl⟩
  | some location =>
    obtain ⟨handles, frame⟩ := HandlePool.fetch_frame store reader.pool location.segment
    refine ⟨handles, ?_⟩
    rw [remembering, ← frame]
    dsimp only
    split <;> simp_all

theorem readChunk_frame (store : FileStore) (reader : Reader) (index : Nat) :
    ∃ handles chunks, (readChunk store reader index).2 = reader.remembering handles chunks := by
  unfold readChunk
  cases hit : reader.cache.get index with
  | mk found cache =>
    cases found with
    | some data =>
      obtain ⟨chunks, frame⟩ := reader.cache.get_frame index
      rw [hit] at frame
      exact ⟨reader.pool.handles, chunks, by rw [remembering, ← frame]⟩
    | none =>
      obtain ⟨handles, frame⟩ := loadChunk_frame store reader index
      cases load : loadChunk store reader index with
      | mk result next =>
        rw [load] at frame
        cases result with
        | error cause => exact ⟨handles, reader.cache.chunks, frame⟩
        | ok data =>
          obtain ⟨chunks, inserted⟩ := next.cache.insert_frame index data
          refine ⟨handles, chunks, ?_⟩
          dsimp only at frame ⊢
          rw [inserted, frame]
          rfl

theorem readFrom_frame (store : FileStore) (reader : Reader) (offset length : Nat) :
    ∃ handles chunks, (readFrom store reader offset length).2 =
      reader.remembering handles chunks := by
  induction length using Nat.strongRecOn generalizing reader offset with
  | ind length ih =>
    rw [readFrom]
    by_cases none : length = 0
    · rw [if_pos none]
      exact ⟨_, _, rfl⟩
    rw [if_neg none]
    obtain ⟨handles, chunks, frame⟩ := readChunk_frame store reader (offset / reader.chunkSize)
    cases read : readChunk store reader (offset / reader.chunkSize) with
    | mk result next =>
      rw [read] at frame
      cases result with
      | error cause => exact ⟨handles, chunks, frame⟩
      | ok chunk =>
        dsimp only at frame ⊢
        generalize slice chunk (offset % reader.chunkSize) length = piece
        by_cases last : piece.size = 0
        · rw [if_pos last]
          exact ⟨handles, chunks, frame⟩
        · obtain ⟨handles, chunks, later⟩ :=
            ih (length - piece.size) (by omega) next (offset + piece.size)
          refine ⟨handles, chunks, ?_⟩
          rw [frame] at later ⊢
          rw [if_neg last]
          cases rest : readFrom store (reader.remembering _ _) (offset + piece.size)
              (length - piece.size) with
          | mk result final =>
            rw [rest] at later
            cases result <;> exact later

/-! ## Reads without a memory -/

/-- What a chunk decodes to, from a handle opened for it alone. -/
def decoded (store : FileStore) (reader : Reader) (index : Nat) : Except ContainerError ByteArray :=
  match reader.chunks[index]? with
  | none =>
    .error (.invalid (.chunkMissing index reader.chunks.size reader.volume.chunkCount.toNat))
  | some location =>
    match HandlePool.fetched store reader.pool.paths location.segment with
    | .error cause => .error (.io cause)
    | .ok handle =>
      decodeChunk store handle reader.volume (reader.segmentSizes.getD location.segment 0) index
        location (reader.volume.chunkLength index)

theorem decoded_remembering (store : FileStore) (reader : Reader)
    (handles : Recency.Entries Handle) (chunks : Recency.Entries ByteArray) :
    (reader.remembering handles chunks).decoded store = reader.decoded store := rfl

def assembled (decode : Nat → Except ContainerError ByteArray) (chunkSize offset length : Nat) :
    Except ContainerError ByteArray :=
  if length = 0 then .ok .empty
  else
    match decode (offset / chunkSize) with
    | .error cause => .error cause
    | .ok chunk =>
      let piece := slice chunk (offset % chunkSize) length
      if piece.size = 0 then .ok .empty
      else
        match assembled decode chunkSize (offset + piece.size) (length - piece.size) with
        | .error cause => .error cause
        | .ok rest => .ok (piece ++ rest)
termination_by length
decreasing_by
  change length - piece.size < length
  omega

/-- Everything remembered is what the files give. -/
structure Sound (store : FileStore) (reader : Reader) : Prop where
  handles : reader.pool.Sound store
  chunks : ∀ index data, Recency.find? reader.cache.chunks index = some data →
    reader.decoded store index = .ok data

theorem loadChunk_eq {store : FileStore} {reader : Reader} (sound : reader.Sound store)
    (index : Nat) :
    ∃ next, loadChunk store reader index = (reader.decoded store index, next) ∧
      next.Sound store := by
  unfold loadChunk decoded
  cases reader.chunks[index]? with
  | none => exact ⟨reader, rfl, sound⟩
  | some location =>
    obtain ⟨handles, fetch, kept⟩ := HandlePool.fetch_eq sound.handles location.segment
    dsimp only
    rw [fetch]
    cases HandlePool.fetched store reader.pool.paths location.segment with
    | error cause => exact ⟨_, rfl, kept, sound.chunks⟩
    | ok handle => exact ⟨_, rfl, kept, sound.chunks⟩

theorem readChunk_eq {store : FileStore} {reader : Reader} (sound : reader.Sound store)
    (index : Nat) :
    ∃ next, readChunk store reader index = (reader.decoded store index, next) ∧
      next.Sound store := by
  unfold readChunk
  cases hit : reader.cache.get index with
  | mk found cache =>
    cases found with
    | some data =>
      obtain ⟨there, before⟩ := ChunkCache.find?_of_get hit
      rw [sound.chunks index data there]
      exact ⟨_, rfl, sound.handles,
        fun other kept h => sound.chunks other kept (before other kept h)⟩
    | none =>
      obtain ⟨handles, frame⟩ := loadChunk_frame store reader index
      obtain ⟨next, load, kept⟩ := loadChunk_eq sound index
      rw [load] at frame
      dsimp only at frame ⊢
      rw [load]
      cases decode : reader.decoded store index with
      | error cause => exact ⟨_, rfl, kept⟩
      | ok data =>
        refine ⟨_, rfl, kept.handles, ?_⟩
        intro other stored there
        rcases ChunkCache.find?_insert there with ⟨rfl, rfl⟩ | there
        · rw [frame]
          exact decode
        · exact kept.chunks other stored there

theorem readFrom_eq {store : FileStore} {reader : Reader} (sound : reader.Sound store)
    (offset length : Nat) :
    ∃ next, readFrom store reader offset length =
        (assembled (reader.decoded store) reader.chunkSize offset length, next) ∧
      next.Sound store := by
  induction length using Nat.strongRecOn generalizing reader offset with
  | ind length ih =>
    rw [readFrom, assembled]
    by_cases none : length = 0
    · rw [if_pos none, if_pos none]
      exact ⟨reader, rfl, sound⟩
    rw [if_neg none, if_neg none]
    obtain ⟨handles, chunks, frame⟩ := readChunk_frame store reader (offset / reader.chunkSize)
    obtain ⟨next, read, kept⟩ := readChunk_eq sound (offset / reader.chunkSize)
    rw [read] at frame
    rw [read]
    cases decode : reader.decoded store (offset / reader.chunkSize) with
    | error cause => exact ⟨next, rfl, kept⟩
    | ok chunk =>
      dsimp only at frame ⊢
      generalize slice chunk (offset % reader.chunkSize) length = piece
      by_cases last : piece.size = 0
      · rw [if_pos last, if_pos last]
        exact ⟨next, rfl, kept⟩
      · obtain ⟨final, rest, sound⟩ :=
          ih (length - piece.size) (by omega) kept (offset + piece.size)
        have same : next.decoded store = reader.decoded store := by rw [frame, decoded_remembering]
        have step : next.chunkSize = reader.chunkSize := by rw [frame]; rfl
        rw [same, step] at rest
        rw [if_neg last, if_neg last, rest]
        cases assembled (reader.decoded store) reader.chunkSize (offset + piece.size)
            (length - piece.size) with
        | error cause => exact ⟨final, rfl, sound⟩
        | ok bytes => exact ⟨final, rfl, sound⟩

theorem readAt_of_uncounted {reader : Reader} (beyond : UInt64.size ≤ reader.mediaSize)
    (store : FileStore) (offset length : Nat) :
    readAt store reader offset length = (.error .overflow, reader) := by
  rw [readAt, size, if_pos beyond]

theorem readAt_of_counted {reader : Reader} (counted : ¬UInt64.size ≤ reader.mediaSize)
    (store : FileStore) (offset length : Nat) :
    readAt store reader offset length =
      readFrom store reader offset (min length (reader.mediaSize - offset)) := by
  rw [readAt, size, if_neg counted]

/-- What a read answers, with every chunk that it touches decoded afresh. -/
def answer (store : FileStore) (reader : Reader) (offset length : Nat) :
    Except ContainerError ByteArray :=
  if UInt64.size ≤ reader.mediaSize then .error .overflow
  else
    assembled (reader.decoded store) reader.chunkSize offset
      (min length (reader.mediaSize - offset))

theorem readAt_frame (store : FileStore) (reader : Reader) (offset length : Nat) :
    ∃ handles chunks,
      (readAt store reader offset length).2 = reader.remembering handles chunks := by
  by_cases beyond : UInt64.size ≤ reader.mediaSize
  · rw [readAt_of_uncounted beyond]
    exact ⟨_, _, rfl⟩
  · rw [readAt_of_counted beyond]
    exact readFrom_frame store reader offset _

theorem readAt_eq {store : FileStore} {reader : Reader} (sound : reader.Sound store)
    (offset length : Nat) :
    ∃ next, readAt store reader offset length = (reader.answer store offset length, next) ∧
      next.Sound store := by
  by_cases beyond : UInt64.size ≤ reader.mediaSize
  · rw [readAt_of_uncounted beyond, answer, if_pos beyond]
    exact ⟨reader, rfl, sound⟩
  · rw [readAt_of_counted beyond, answer, if_neg beyond]
    exact readFrom_eq sound offset _

def afterReads (store : FileStore) (reader : Reader) : List (Nat × Nat) → Reader
  | [] => reader
  | (offset, length) :: rest => afterReads store (readAt store reader offset length).2 rest

theorem afterReads_frame (store : FileStore) (reader : Reader) (history : List (Nat × Nat)) :
    ∃ handles chunks, afterReads store reader history = reader.remembering handles chunks := by
  induction history generalizing reader with
  | nil => exact ⟨_, _, rfl⟩
  | cons request rest ih =>
    obtain ⟨offset, length⟩ := request
    obtain ⟨handles, chunks, first⟩ := readAt_frame store reader offset length
    obtain ⟨handles, chunks, later⟩ := ih (readAt store reader offset length).2
    refine ⟨handles, chunks, ?_⟩
    rw [afterReads, later, first]
    rfl

theorem afterReads_sound {store : FileStore} {reader : Reader} (sound : reader.Sound store)
    (history : List (Nat × Nat)) : (afterReads store reader history).Sound store := by
  induction history generalizing reader with
  | nil => exact sound
  | cons request rest ih =>
    obtain ⟨offset, length⟩ := request
    obtain ⟨next, read, kept⟩ := readAt_eq sound offset length
    have state : (readAt store reader offset length).2 = next := by rw [read]
    exact ih (state ▸ kept)

theorem readAt_afterReads {store : FileStore} {reader : Reader} (sound : reader.Sound store)
    (history : List (Nat × Nat)) (offset length : Nat) :
    (readAt store (afterReads store reader history) offset length).1 =
      reader.answer store offset length := by
  obtain ⟨handles, chunks, frame⟩ := afterReads_frame store reader history
  have kept := afterReads_sound sound history
  rw [frame] at kept ⊢
  obtain ⟨next, read, -⟩ := readAt_eq kept offset length
  rw [read]
  rfl

end Reader

end Ewf

end EvidencePages

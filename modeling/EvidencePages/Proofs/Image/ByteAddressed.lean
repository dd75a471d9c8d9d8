import EvidencePages.Image.PageWalk
import EvidencePages.Proofs.Ewf.Caching

/-!
# Images paged over bytes

Raw and container images take their cursors and pages from one geometry. A
read changes what an image remembers but not its geometry.
-/

set_option autoImplicit false

namespace EvidencePages

theorem SplitIndex.read_segments (store : FileStore) (index : SplitIndex) (offset length : Nat) :
    (read store index offset length).2.segments = index.segments := by
  induction length using Nat.strongRecOn generalizing index offset with
  | ind length ih =>
    rw [read]
    by_cases none : length = 0
    · rw [if_pos none]
    rw [if_neg none]
    cases Segment.owner? index.segments offset with
    | none => rfl
    | some owner =>
      obtain ⟨part, segment⟩ := owner
      dsimp only
      cases index.pool.fetch store part with
      | mk result pool =>
        cases result with
        | error cause => rfl
        | ok handle =>
          dsimp only
          cases store.readAt handle (offset - segment.start)
              (min length (segment.length - (offset - segment.start))) with
          | error cause => rfl
          | ok bytes =>
            dsimp only
            by_cases last : bytes.size = 0
            · rw [if_pos last]
            · rw [if_neg last]
              have later := ih (length - bytes.size) (by omega) { index with pool }
                (offset + bytes.size)
              cases rest : read store { index with pool } (offset + bytes.size)
                  (length - bytes.size) with
              | mk result final =>
                rw [rest] at later
                cases result <;> exact later

namespace Outcome

variable {σ τ α : Type}

theorem reporting_result (report : Bool) (outcome : Outcome σ α) :
    (outcome.reporting report).result = outcome.result := by
  unfold reporting
  split
  · rfl
  · split <;> rfl

theorem reporting_state (report : Bool) (outcome : Outcome σ α) :
    (outcome.reporting report).state = outcome.state := by
  unfold reporting
  split
  · rfl
  · split <;> rfl

end Outcome

theorem RawImage.pread_geometry (store : FileStore) (image : RawImage) (offset length : Nat) :
    (pread store image offset length).state.geometry = image.geometry := by
  unfold pread
  cases opened : image.index with
  | none => rfl
  | some index =>
    simp only [Outcome.reporting_state, geometry, size, opened, SplitIndex.size,
      index.read_segments]

theorem OpenMedia.readAt_size (store : FileStore) (media : OpenMedia) (offset length : Nat) :
    (media.readAt store offset length).2.size = media.size := by
  cases media with
  | ewf reader =>
    obtain ⟨handles, chunks, frame⟩ := reader.readAt_frame store offset length
    simp only [readAt, size, frame]
    rfl
  | supplied source =>
    simp only [readAt]
    cases source.read store offset length <;> rfl

theorem ContainerImage.pread_geometry (store : FileStore) (image : ContainerImage)
    (offset length : Nat) : (pread store image offset length).state.geometry = image.geometry := by
  unfold pread
  cases opened : image.opened with
  | none => rfl
  | some container =>
    dsimp only
    split
    · rfl
    · have kept := container.media.readAt_size store offset
        (min length (container.media.size - offset))
      cases read : container.media.readAt store offset
          (min length (container.media.size - offset)) with
      | mk result media =>
        rw [read] at kept
        cases result <;>
          simp only [Outcome.reporting_state, geometry, size, opened, kept]

namespace Backend

def paging? : Backend → Option ByteGeometry
  | .raw image => some image.geometry
  | .container image => some image.geometry
  | .directory _ => none

theorem pread_paging? (store : FileStore) (backend : Backend) (offset length : Nat) :
    (backend.pread store offset length).state.paging? = backend.paging? := by
  cases backend with
  | raw image => exact congrArg some (image.pread_geometry store offset length)
  | container image => exact congrArg some (image.pread_geometry store offset length)
  | directory image => rfl

variable {backend : Backend} {geometry : ByteGeometry}

theorem first_eq (h : backend.paging? = some geometry) : backend.first = geometry.first := by
  cases backend <;> cases h <;> rfl

theorem advance_eq (h : backend.paging? = some geometry) (cursor : Cursor) :
    backend.advance cursor = geometry.advance cursor := by
  cases backend <;> cases h <;> rfl

end Backend

theorem ByteGeometry.readPage_on {σ τ : Type} (geometry : ByteGeometry)
    (pread : σ → Nat → Nat → Outcome σ ByteArray) (wide : τ → Nat → Nat → Outcome τ ByteArray)
    (rebuild : σ → τ) (state : σ) (cursor : Cursor)
    (same : ∀ offset length, wide (rebuild state) offset length =
      (pread state offset length).on rebuild) :
    geometry.readPage wide (rebuild state) cursor =
      (geometry.readPage pread state cursor).on rebuild := by
  unfold readPage
  dsimp only
  split
  · rfl
  · split
    · rfl
    · rw [same]
      cases read : (pread state (geometry.offsetOf cursor)
          (geometry.windowAt (geometry.offsetOf cursor))).result <;>
        simp only [Outcome.on, read]

theorem Backend.readPage_eq {backend : Backend} {geometry : ByteGeometry}
    (paged : backend.paging? = some geometry) (store : FileStore) (cursor : Cursor) :
    backend.readPage store cursor = geometry.readPage (Backend.pread store) backend cursor := by
  cases backend with
  | raw image =>
    cases paged
    exact (ByteGeometry.readPage_on _ _ _ _ _ _ fun _ _ => rfl).symm
  | container image =>
    cases paged
    exact (ByteGeometry.readPage_on _ _ _ _ _ _ fun _ _ => rfl).symm
  | directory image => cases paged

theorem Image.readPage_eq {image : Image} {geometry : ByteGeometry}
    (h : image.backend.paging? = some geometry) (store : FileStore) (cursor : Cursor) :
    image.readPage store cursor = geometry.readPage (Image.pread store) image cursor := by
  rw [readPage, Backend.readPage_eq h]
  exact (ByteGeometry.readPage_on _ _ _ _ _ _ fun _ _ => rfl).symm

namespace ByteGeometry

variable {σ : Type}

/-- What the page at an offset comes to: there is nothing left, the window is too large to be read,
or its read fails, gives nothing, too little, or all of it. -/
inductive PageRead (geometry : ByteGeometry) (pread : σ → Nat → Nat → Outcome σ ByteArray)
    (state : σ) (offset : Nat) : Outcome σ (Option Page) → Prop
  | past (nothing : geometry.windowAt offset = 0) :
    PageRead geometry pread state offset { result := .ok none, state }
  | wide (large : bufferLimit ≤ geometry.windowAt offset) :
    PageRead geometry pread state offset
      { result := .error (.bufferTooLarge (geometry.windowAt offset)), state }
  | failed {cause : ImageError} (fits : geometry.windowAt offset < bufferLimit)
    (read : (pread state offset (geometry.windowAt offset)).result = .error cause) :
    PageRead geometry pread state offset
      { pread state offset (geometry.windowAt offset) with result := .error cause }
  | gone {bytes : ByteArray} (fits : geometry.windowAt offset < bufferLimit)
    (read : (pread state offset (geometry.windowAt offset)).result = .ok bytes)
    (empty : bytes.size = 0) :
    PageRead geometry pread state offset
      { pread state offset (geometry.windowAt offset) with result := .ok none }
  | short {bytes : ByteArray} (fits : geometry.windowAt offset < bufferLimit)
    (read : (pread state offset (geometry.windowAt offset)).result = .ok bytes)
    (more : 0 < bytes.size) (less : bytes.size < geometry.windowAt offset) :
    PageRead geometry pread state offset
      { pread state offset (geometry.windowAt offset) with
        result := .error (.read offset (.short (geometry.windowAt offset) bytes.size)) }
  | whole {bytes : ByteArray} {page : Page} (fits : geometry.windowAt offset < bufferLimit)
    (read : (pread state offset (geometry.windowAt offset)).result = .ok bytes)
    (full : geometry.windowAt offset ≤ bytes.size) :
    PageRead geometry pread state offset
      { pread state offset (geometry.windowAt offset) with result := .ok (some page) }

theorem readPage_cases (geometry : ByteGeometry) (pread : σ → Nat → Nat → Outcome σ ByteArray)
    (state : σ) (cursor : Cursor) :
    PageRead geometry pread state (geometry.offsetOf cursor)
      (geometry.readPage pread state cursor) := by
  rw [readPage]
  by_cases nothing : geometry.windowAt (geometry.offsetOf cursor) = 0
  · rw [if_pos nothing]
    exact .past nothing
  rw [if_neg nothing]
  by_cases large : bufferLimit ≤ geometry.windowAt (geometry.offsetOf cursor)
  · rw [if_pos large]
    exact .wide large
  rw [if_neg large]
  have fits := Nat.lt_of_not_le large
  dsimp only
  cases read : (pread state (geometry.offsetOf cursor)
      (geometry.windowAt (geometry.offsetOf cursor))).result with
  | error cause => exact .failed fits read
  | ok bytes =>
    dsimp only
    rw [pageOf]
    by_cases empty : bytes.size = 0
    · rw [if_pos empty]
      exact .gone fits read empty
    rw [if_neg empty]
    by_cases less : bytes.size < geometry.windowAt (geometry.offsetOf cursor)
    · rw [dif_pos less]
      exact .short fits read (Nat.pos_of_ne_zero empty) less
    · rw [dif_neg less]
      exact .whole fits read (Nat.le_of_not_lt less)

end ByteGeometry

end EvidencePages

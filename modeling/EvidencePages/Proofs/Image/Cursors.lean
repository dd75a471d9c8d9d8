import EvidencePages.Proofs.Image.PageWalk

/-!
# Cursors of any image

Whether an image is paged over bytes or over files, its cursors depend on two
numbers that no read changes. Stepping from the start and seeking lead to the
same cursors, and the one behind the last block is at the end.
-/

set_option autoImplicit false

namespace EvidencePages

inductive Paging where
  | bytes (geometry : ByteGeometry)
  | files (count : Nat)

namespace Paging

def cursorAt : Paging → Nat → Cursor
  | .bytes geometry, index => geometry.cursorAt index
  | .files count, index => .atFile (min index count) (count ≤ index)

def blockCount? : Paging → Option Nat
  | .bytes geometry => geometry.blockCount?
  | .files count => some count

def last : Paging → Cursor
  | .bytes geometry => geometry.last
  | .files count => .atFile count true

def advance : Paging → Cursor → Cursor
  | .bytes geometry, cursor => geometry.advance cursor
  | .files count, cursor => cursor.stepFile count

theorem blockCount?_bytes {geometry : ByteGeometry} {count : Nat}
    (counted : geometry.blockCount? = some count) :
    0 < geometry.pageSize ∧ count = pieceCount geometry.size geometry.pageSize := by
  unfold ByteGeometry.blockCount? at counted
  split at counted
  · cases counted
  · cases counted
    exact ⟨Nat.pos_of_ne_zero ‹_›, rfl⟩

theorem atEnd_cursorAt {paging : Paging} {count : Nat}
    (counted : paging.blockCount? = some count) (index : Nat) :
    (paging.cursorAt index).atEnd = true ↔ count ≤ index := by
  cases paging with
  | bytes geometry =>
    obtain ⟨positive, rfl⟩ := blockCount?_bytes counted
    have inside := lt_pieceCount positive geometry.size index
    simp only [cursorAt, ByteGeometry.cursorAt, Cursor.atByte, decide_eq_true_eq]
    omega
  | files count =>
    cases counted
    simp [cursorAt, Cursor.atFile]

end Paging

namespace Backend

def paging : Backend → Paging
  | .raw image => .bytes image.geometry
  | .container image => .bytes image.geometry
  | .directory image => .files image.count

variable (backend : Backend)

theorem blockCount?_eq : backend.blockCount? = backend.paging.blockCount? := by
  cases backend <;> rfl

theorem last_eq_paging : backend.last = backend.paging.last := by
  cases backend <;> rfl

theorem advance_eq_paging (cursor : Cursor) :
    backend.advance cursor = backend.paging.advance cursor := by
  cases backend <;> rfl

theorem first_eq_cursorAt : backend.first = backend.paging.cursorAt 0 := by
  cases backend with
  | raw image => exact image.geometry.first_eq_cursorAt
  | container image => exact image.geometry.first_eq_cursorAt
  | directory image => simp [first, DirectoryImage.first, paging, Paging.cursorAt]

theorem advance_cursorAt (index : Nat) :
    backend.advance (backend.paging.cursorAt index) = backend.paging.cursorAt (index + 1) := by
  cases backend with
  | raw image => exact image.geometry.advance_cursorAt index
  | container image => exact image.geometry.advance_cursorAt index
  | directory image =>
    have next : min (min index image.count + 1) image.count = min (index + 1) image.count := by
      omega
    have atEnd : image.count ≤ min (index + 1) image.count ↔ image.count ≤ index + 1 := by omega
    simp only [advance, DirectoryImage.advance, paging, Paging.cursorAt, Cursor.stepFile,
      Cursor.fileIndex?, Cursor.atFile, Option.getD_some, next, atEnd]

theorem seek?_eq {count : Nat} (counted : backend.blockCount? = some count) (block : Nat) :
    backend.seek? block =
      some (backend.paging.cursorAt (min block (count - 1)), min block (count - 1)) := by
  have bytes : ∀ geometry : ByteGeometry, geometry.blockCount? = some count →
      geometry.seek? block =
        some (geometry.cursorAt (min block (count - 1)), min block (count - 1)) := by
    intro geometry counted
    have reach : geometry.size ≤ min (min block (count - 1) * geometry.pageSize) geometry.size ↔
        geometry.size ≤ min block (count - 1) * geometry.pageSize := by omega
    simp only [ByteGeometry.seek?, counted, ByteGeometry.cursorAt, reach]
  cases backend with
  | raw image => exact bytes image.geometry counted
  | container image => exact bytes image.geometry counted
  | directory image =>
    cases counted
    have inside : min (min block (image.count - 1)) image.count = min block (image.count - 1) := by
      omega
    simp only [seek?, DirectoryImage.seek, paging, Paging.cursorAt, inside]

end Backend

namespace Image

variable {image : Image} {count block : Nat}

theorem seek_inside (counted : image.backend.blockCount? = some count) (inside : block < count) :
    (image.seek block).1 = image.backend.paging.cursorAt block := by
  rw [seek, image.backend.seek?_eq counted, Option.getD_some, Nat.min_eq_left (by omega)]

theorem readBlock_inside (counted : image.backend.blockCount? = some count)
    (inside : block < count) (store : FileStore) :
    image.readBlock store block =
      image.readPage store (image.backend.paging.cursorAt block) := by
  rw [readBlock, blockCount, counted, Option.getD_some, if_neg (by omega),
    seek_inside counted inside]

end Image

theorem ByteGeometry.readPage_state {σ : Type} (geometry : ByteGeometry)
    (pread : σ → Nat → Nat → Outcome σ ByteArray) (state : σ) (cursor : Cursor) :
    (geometry.readPage pread state cursor).state = state ∨
      ∃ offset length, (geometry.readPage pread state cursor).state =
        (pread state offset length).state := by
  unfold readPage
  dsimp only
  split
  · exact .inl rfl
  split
  · exact .inl rfl
  right
  refine ⟨geometry.offsetOf cursor, geometry.windowAt (geometry.offsetOf cursor), ?_⟩
  split <;> rfl

theorem Backend.readPage_paging (store : FileStore) (backend : Backend) (cursor : Cursor) :
    (backend.readPage store cursor).state.paging = backend.paging := by
  cases backend with
  | raw image =>
    apply congrArg Paging.bytes
    rcases image.geometry.readPage_state (RawImage.pread store) image cursor with
      same | ⟨offset, length, same⟩
    · exact congrArg RawImage.geometry same
    · exact (congrArg RawImage.geometry same).trans (image.pread_geometry store offset length)
  | container image =>
    apply congrArg Paging.bytes
    rcases image.geometry.readPage_state (ContainerImage.pread store) image cursor with
      same | ⟨offset, length, same⟩
    · exact congrArg ContainerImage.geometry same
    · exact (congrArg ContainerImage.geometry same).trans
        (image.pread_geometry store offset length)
  | directory image => rfl

theorem Image.readPage_paging (store : FileStore) (image : Image) (cursor : Cursor) :
    (image.readPage store cursor).state.backend.paging = image.backend.paging :=
  image.backend.readPage_paging store cursor

end EvidencePages

import EvidencePages.Proofs.Image.Cursors

/-!
# Blocks at random and one after another

Seeking a block and stepping to it from the start come to the same cursor, so
that a block read on its own is the page that a walk has there. Steps reach the
end with the last block and stay there.
-/

set_option autoImplicit false

namespace EvidencePages

namespace Paging

theorem exists_blockCount? {paging : Paging}
    (positive : ∀ geometry, paging = .bytes geometry → 0 < geometry.pageSize) :
    ∃ count, paging.blockCount? = some count := by
  cases paging with
  | bytes geometry =>
    have some := positive geometry rfl
    rw [blockCount?, ByteGeometry.blockCount?, if_neg (by omega)]
    exact ⟨_, rfl⟩
  | files count => exact ⟨count, rfl⟩

theorem cursorAt_of_le {paging : Paging} {count : Nat}
    (counted : paging.blockCount? = some count) {index : Nat} (past : count ≤ index) :
    paging.cursorAt index = paging.last := by
  cases paging with
  | bytes geometry =>
    obtain ⟨positive, rfl⟩ := blockCount?_bytes counted
    have whole : geometry.size ≤ index * geometry.pageSize :=
      Nat.le_trans (le_pieceCount_mul positive geometry.size) (Nat.mul_le_mul_right _ past)
    simp only [cursorAt, ByteGeometry.cursorAt, last, ByteGeometry.last, Nat.min_eq_right whole,
      whole, decide_true]
  | files count =>
    cases counted
    simp only [cursorAt, last, Nat.min_eq_right past, past, decide_true]

end Paging

namespace Backend

variable (backend : Backend)

def stepped (steps : Nat) : Cursor := Nat.repeat backend.advance steps backend.first

theorem stepped_eq_cursorAt (steps : Nat) :
    backend.stepped steps = backend.paging.cursorAt steps := by
  induction steps with
  | zero => exact backend.first_eq_cursorAt
  | succ steps ih =>
    have step : backend.stepped (steps + 1) = backend.advance (backend.stepped steps) := rfl
    rw [step, ih, backend.advance_cursorAt]

end Backend

namespace Image

variable {image : Image}

theorem blockCount?_eq_some
    (positive : ∀ geometry, image.backend.paging = .bytes geometry → 0 < geometry.pageSize) :
    image.backend.blockCount? = some image.blockCount := by
  obtain ⟨count, counted⟩ := Paging.exists_blockCount? positive
  rw [← image.backend.blockCount?_eq] at counted
  rw [blockCount, counted, Option.getD_some]

/-- Any block is sought at the cursor that as many steps from the start lead to, and its page is the
page there; from the block count on, the last block is sought and there is no page. Steps are at the
end once they are as many as there are blocks, and not before, and from then on change nothing. -/
theorem seek_eq_stepped
    (positive : ∀ geometry, image.backend.paging = .bytes geometry → 0 < geometry.pageSize)
    (store : FileStore) :
    (∀ block < image.blockCount,
      image.backend.seek? block = some (image.backend.stepped block, block) ∧
      image.readBlock store block = image.readPage store (image.backend.stepped block)) ∧
    (∀ block, image.blockCount ≤ block →
      image.backend.seek? block =
        some (image.backend.stepped (image.blockCount - 1), image.blockCount - 1) ∧
      image.readBlock store block = { result := .ok none, state := image }) ∧
    (∀ steps, (image.backend.stepped steps).atEnd = true ↔ image.blockCount ≤ steps) ∧
    ∀ steps, image.blockCount ≤ steps →
      image.backend.stepped steps = image.backend.last ∧
      image.backend.advance (image.backend.stepped steps) = image.backend.stepped steps := by
  have counted := blockCount?_eq_some positive
  have paged : image.backend.paging.blockCount? = some image.blockCount := by
    rw [← image.backend.blockCount?_eq, counted]
  have ended : ∀ steps, image.blockCount ≤ steps →
      image.backend.stepped steps = image.backend.last := by
    intro steps past
    rw [image.backend.stepped_eq_cursorAt, Paging.cursorAt_of_le paged past,
      image.backend.last_eq_paging]
  refine ⟨?_, ?_, ?_, ?_⟩
  · intro block inside
    have sought : image.backend.seek? block = some (image.backend.stepped block, block) := by
      rw [image.backend.seek?_eq counted, Nat.min_eq_left (by omega),
        image.backend.stepped_eq_cursorAt]
    refine ⟨sought, ?_⟩
    rw [readBlock, if_neg (by omega), seek, sought, Option.getD_some]
  · intro block past
    constructor
    · rw [image.backend.seek?_eq counted, Nat.min_eq_right (by omega),
        image.backend.stepped_eq_cursorAt]
    · rw [readBlock, if_pos past]
  · intro steps
    rw [image.backend.stepped_eq_cursorAt]
    exact Paging.atEnd_cursorAt paged steps
  · intro steps past
    have next : image.backend.advance (image.backend.stepped steps) =
        image.backend.stepped (steps + 1) := rfl
    rw [next, ended steps past, ended (steps + 1) (by omega)]
    exact ⟨rfl, rfl⟩

def fiveBytes : Image where
  backend := .raw {
    path := ⟨"disk.dd"⟩
    config := { pageSize := 2, margin := 1 }
    index := some { segments := [⟨⟨"disk.dd"⟩, 0, 5⟩], pool := .ofPaths [⟨"disk.dd"⟩] 1 } }
  config := { pageSize := 2, margin := 1 }

theorem seek_fiveBytes :
    fiveBytes.backend.paging = .bytes ⟨5, 2, 1⟩ ∧ fiveBytes.blockCount = 3 ∧
      fiveBytes.backend.seek? 2 = some (.atByte 4 false, 2) ∧
      fiveBytes.backend.seek? 9 = some (.atByte 4 false, 2) ∧
      fiveBytes.readBlock .blank 2 = fiveBytes.readPage .blank (.atByte 4 false) ∧
      fiveBytes.backend.stepped 3 = .atByte 5 true ∧
      fiveBytes.backend.advance (.atByte 5 true) = .atByte 5 true := by
  have paged : fiveBytes.backend.paging = .bytes ⟨5, 2, 1⟩ := rfl
  have count : fiveBytes.blockCount = 3 := rfl
  have two : fiveBytes.backend.stepped 2 = .atByte 4 false := rfl
  have three : fiveBytes.backend.stepped 3 = .atByte 5 true := rfl
  have positive : ∀ geometry, fiveBytes.backend.paging = .bytes geometry →
      0 < geometry.pageSize := by
    intro geometry same
    cases paged.symm.trans same
    decide
  obtain ⟨inside, past, -, ended⟩ := seek_eq_stepped positive .blank
  rw [count] at inside past ended
  obtain ⟨sought, page⟩ := inside 2 (by decide)
  obtain ⟨last, -⟩ := past 9 (by decide)
  obtain ⟨-, still⟩ := ended 3 (by decide)
  rw [two] at sought page last
  rw [three] at still
  exact ⟨paged, count, sought, last, page, three, still⟩

end Image

end EvidencePages

import EvidencePages.Paging.ByteGeometry
import EvidencePages.Proofs.Bytes

/-!
# Pages tile their image

The page of a block is a slice of the content, its active part the block and
its margin what follows. The blocks cover the content once, and a run of bytes
that starts in a block and is no longer than the margin and one byte more ends
inside the page of that block.
-/

set_option autoImplicit false

namespace EvidencePages

def Page.ofBlock (content : ByteArray) (pageSize margin index : Nat) : Page where
  position := .atOffset (index * pageSize)
  bytes := slice content (index * pageSize) (pageSize + margin)
  activeLength := min pageSize (content.size - index * pageSize)
  mapped := false
  activeLength_le := by
    rw [size_slice]
    omega

namespace Page

variable (content : ByteArray) (pageSize margin : Nat)

theorem size_ofBlock (index : Nat) :
    (ofBlock content pageSize margin index).bytes.size =
      min (pageSize + margin) (content.size - index * pageSize) :=
  size_slice _ _ _

theorem active_ofBlock (index : Nat) :
    (ofBlock content pageSize margin index).active = slice content (index * pageSize) pageSize := by
  have cut : (ofBlock content pageSize margin index).active =
      slice (slice content (index * pageSize) (pageSize + margin)) 0
        (min pageSize (content.size - index * pageSize)) := by
    rw [active, slice, Nat.zero_add]
    rfl
  rw [cut, slice_slice, Nat.add_zero, ← slice_min content (index * pageSize) pageSize]
  congr 1
  omega

theorem joined_active {pageSize : Nat} (positive : 0 < pageSize) :
    joined ((List.range (pieceCount content.size pageSize)).map fun index =>
      (ofBlock content pageSize margin index).active) = content := by
  simp only [active_ofBlock]
  rw [joined_pieces_of_count]
  exact slice_eq_self (le_pieceCount_mul positive _)

theorem active_iff {pageSize : Nat} (positive : 0 < pageSize) {offset : Nat}
    (inside : offset < content.size) (index : Nat) :
    (index * pageSize ≤ offset ∧
        offset < index * pageSize + (ofBlock content pageSize margin index).activeLength) ↔
      index = offset / pageSize := by
  have active : (ofBlock content pageSize margin index).activeLength =
      min pageSize (content.size - index * pageSize) := rfl
  rw [active]
  constructor
  · intro ⟨lower, upper⟩
    symm
    apply Nat.div_eq_of_lt_le lower
    rw [Nat.succ_mul]
    omega
  · intro same
    rw [same]
    have := Nat.div_mul_le_self offset pageSize
    have := Nat.lt_div_mul_add (a := offset) positive
    omega

theorem run_inside {pageSize : Nat} (positive : 0 < pageSize) {offset length : Nat}
    (short : length ≤ margin + 1) (inside : offset + length ≤ content.size) :
    offset - offset / pageSize * pageSize + length ≤
        (ofBlock content pageSize margin (offset / pageSize)).bytes.size ∧
      slice (ofBlock content pageSize margin (offset / pageSize)).bytes
          (offset - offset / pageSize * pageSize) length = slice content offset length := by
  have lower := Nat.div_mul_le_self offset pageSize
  have upper := Nat.lt_div_mul_add (a := offset) positive
  constructor
  · rw [size_ofBlock]
    omega
  · rw [ofBlock, slice_slice]
    congr 1 <;> omega

end Page

namespace ByteGeometry

theorem pageOf_window {geometry : ByteGeometry} {content : ByteArray}
    (whole : geometry.size = content.size) (positive : 0 < geometry.pageSize) {index : Nat}
    (inside : index * geometry.pageSize < content.size) :
    geometry.pageOf (index * geometry.pageSize)
        (slice content (index * geometry.pageSize)
          (geometry.windowAt (index * geometry.pageSize))) =
      .ok (some (Page.ofBlock content geometry.pageSize geometry.margin index)) := by
  have window : geometry.windowAt (index * geometry.pageSize) =
      min (geometry.pageSize + geometry.margin) (content.size - index * geometry.pageSize) := by
    rw [windowAt, whole]
  have size : (slice content (index * geometry.pageSize)
      (geometry.windowAt (index * geometry.pageSize))).size =
        geometry.windowAt (index * geometry.pageSize) := by
    rw [size_slice, window]
    omega
  rw [pageOf, if_neg (by rw [size, window]; omega), dif_neg (by rw [size]; omega)]
  simp only [window, Page.ofBlock, slice_min, Except.ok.injEq, Option.some.injEq, Page.mk.injEq,
    true_and, and_true]
  omega

end ByteGeometry

end EvidencePages

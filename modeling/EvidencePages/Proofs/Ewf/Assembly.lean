import EvidencePages.Proofs.Ewf.Caching
import EvidencePages.Proofs.Bytes

/-!
# Ranges assembled from chunks

A range of bytes is the pieces that it takes from each chunk, joined. Where
chunks that decode are the right ones, a range that is assembled at all is the
right one.
-/

set_option autoImplicit false

namespace EvidencePages.Ewf.Reader

variable {decode : Nat → Except ContainerError ByteArray} {content : ByteArray} {step : Nat}

theorem slice_chunk (content : ByteArray) (step offset length : Nat) :
    slice (slice content (offset / step * step) step) (offset % step) length =
      slice content offset (min length (step - offset % step)) := by
  have place : offset / step * step + offset % step = offset := Nat.div_add_mod' offset step
  rw [slice_slice, place]

theorem size_piece {offset length : Nat} (inside : offset + length ≤ content.size) :
    (slice content offset (min length (step - offset % step))).size =
      min length (step - offset % step) := by
  rw [size_slice]
  omega

theorem assembled_sound (pos : 0 < step)
    (right : ∀ index data, index * step < content.size → decode index = .ok data →
      data = slice content (index * step) step)
    {offset length : Nat} (inside : offset + length ≤ content.size) {result : ByteArray}
    (success : assembled decode step offset length = .ok result) :
    result = slice content offset length := by
  -- On the length; the piece of the first chunk is never empty.
  induction length using Nat.strongRecOn generalizing offset result with
  | ind length ih =>
    rw [assembled] at success
    by_cases none : length = 0
    · rw [if_pos none] at success
      cases success
      rw [none, slice_zero_length]
    rw [if_neg none] at success
    have within : offset / step * step < content.size := by
      have start := Nat.div_mul_le_self offset step
      omega
    cases decoded : decode (offset / step) with
    | error cause =>
      rw [decoded] at success
      cases success
    | ok chunk =>
      have rest := Nat.mod_lt offset pos
      rw [decoded, right _ chunk within decoded] at success
      dsimp only at success
      rw [slice_chunk, size_piece inside] at success
      generalize size : min length (step - offset % step) = piece at success
      rw [if_neg (by omega)] at success
      cases later : assembled decode step (offset + piece) (length - piece) with
      | error cause =>
        rw [later] at success
        cases success
      | ok tail =>
        rw [later] at success
        cases success
        rw [ih (length - piece) (by omega) (by omega) later, slice_append_slice,
          Nat.add_sub_cancel' (by omega)]

theorem assembled_complete (pos : 0 < step)
    (whole : ∀ index, index * step < content.size →
      decode index = .ok (slice content (index * step) step))
    {offset length : Nat} (inside : offset + length ≤ content.size) :
    assembled decode step offset length = .ok (slice content offset length) := by
  induction length using Nat.strongRecOn generalizing offset with
  | ind length ih =>
    rw [assembled]
    by_cases none : length = 0
    · rw [if_pos none, none, slice_zero_length]
    have within : offset / step * step < content.size := by
      have start := Nat.div_mul_le_self offset step
      omega
    have rest := Nat.mod_lt offset pos
    rw [if_neg none, whole _ within]
    dsimp only
    rw [slice_chunk, size_piece inside]
    generalize size : min length (step - offset % step) = piece
    rw [if_neg (by omega), ih (length - piece) (by omega) (by omega)]
    dsimp only
    rw [slice_append_slice, Nat.add_sub_cancel' (by omega)]

theorem assembled_of_chunk {index : Nat} {data : ByteArray} (decoded : decode index = .ok data)
    (some : 0 < data.size) (short : data.size ≤ step) :
    assembled decode step (index * step) data.size = .ok data := by
  rw [assembled, if_neg (by omega), Nat.mul_div_cancel _ (by omega), decoded]
  dsimp only
  rw [Nat.mul_mod_left, slice_eq_self (Nat.le_refl _), if_neg (by omega), Nat.sub_self,
    assembled, if_pos rfl]
  dsimp only
  rw [ByteArray.append_empty]

end EvidencePages.Ewf.Reader

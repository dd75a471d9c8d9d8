import EvidencePages.Bytes

/-!
# Slices of byte strings

A byte string is determined by its list of bytes, and a slice of it is a
dropped and taken part of that list. Strings joined end to end are cut apart
again by slices that begin where one of them begins. A string that is put over
a part of another leaves the bytes before and behind it.
-/

set_option autoImplicit false

namespace EvidencePages

instance decidableEqExcept {ε α : Type} [DecidableEq ε] [DecidableEq α] :
    DecidableEq (Except ε α)
  | .ok a, .ok b => decidable_of_iff (a = b) (Except.ok.injEq a b ▸ Iff.rfl)
  | .error a, .error b => decidable_of_iff (a = b) (Except.error.injEq a b ▸ Iff.rfl)
  | .ok _, .error _ => isFalse fun same => by cases same
  | .error _, .ok _ => isFalse fun same => by cases same

theorem bytes_ext {a b : ByteArray} (h : a.data.toList = b.data.toList) : a = b := by
  apply ByteArray.ext
  exact Array.toList_inj.mp h

theorem length_toList (bytes : ByteArray) : bytes.data.toList.length = bytes.size := rfl

@[simp] theorem toList_append (a b : ByteArray) :
    (a ++ b).data.toList = a.data.toList ++ b.data.toList := by
  simp [ByteArray.data_append]

@[simp] theorem toList_ofBytes (bytes : List UInt8) : (ofBytes bytes).data.toList = bytes := rfl

@[simp] theorem size_ofBytes (bytes : List UInt8) : (ofBytes bytes).size = bytes.length := rfl

@[simp] theorem size_zeros (length : Nat) : (zeros length).size = length := by
  simp [zeros, ByteArray.size]

theorem zeros_append_zeros (m n : Nat) : zeros m ++ zeros n = zeros (m + n) := by
  apply bytes_ext
  rw [toList_append]
  simp [zeros]

theorem ofBytes_append (a b : List UInt8) : ofBytes (a ++ b) = ofBytes a ++ ofBytes b := by
  apply bytes_ext
  rw [toList_append]
  rfl

@[simp] theorem toList_slice (bytes : ByteArray) (offset length : Nat) :
    (slice bytes offset length).data.toList = (bytes.data.toList.drop offset).take length := by
  rw [slice, ByteArray.data_extract, Array.toList_extract, List.extract_eq_take_drop]
  congr 1
  omega

@[simp] theorem slice_zero_length (bytes : ByteArray) (offset : Nat) :
    slice bytes offset 0 = .empty := by
  apply bytes_ext
  simp

theorem slice_of_size_le {bytes : ByteArray} {offset : Nat} (h : bytes.size ≤ offset)
    (length : Nat) : slice bytes offset length = .empty := by
  apply bytes_ext
  rw [toList_slice, List.drop_eq_nil_of_le (by rw [length_toList]; exact h)]
  simp

theorem slice_eq_self {bytes : ByteArray} {length : Nat} (h : bytes.size ≤ length) :
    slice bytes 0 length = bytes := by
  apply bytes_ext
  rw [toList_slice, List.drop_zero, List.take_of_length_le (by rw [length_toList]; exact h)]

theorem slice_append_slice (bytes : ByteArray) (offset m n : Nat) :
    slice bytes offset m ++ slice bytes (offset + m) n = slice bytes offset (m + n) := by
  apply bytes_ext
  rw [toList_append, toList_slice, toList_slice, toList_slice, List.take_add, List.drop_drop]

theorem slice_slice (bytes : ByteArray) (a m b n : Nat) :
    slice (slice bytes a m) b n = slice bytes (a + b) (min n (m - b)) := by
  apply bytes_ext
  rw [toList_slice, toList_slice, toList_slice, List.drop_take, List.drop_drop, List.take_take]

theorem slice_min (bytes : ByteArray) (offset length : Nat) :
    slice bytes offset (min length (bytes.size - offset)) = slice bytes offset length := by
  apply bytes_ext
  rw [toList_slice, toList_slice, List.take_eq_take_iff, List.length_drop, length_toList]
  omega

theorem size_slice_lt_iff (bytes : ByteArray) (offset : Nat) {length : Nat} (some : 0 < length) :
    (slice bytes offset length).size < length ↔ bytes.size < offset + length := by
  rw [size_slice]
  omega

theorem slice_append_left {a : ByteArray} {offset length : Nat} (h : offset + length ≤ a.size)
    (b : ByteArray) : slice (a ++ b) offset length = slice a offset length := by
  apply bytes_ext
  rw [toList_slice, toList_slice, toList_append]
  rw [List.drop_append_of_le_length (by rw [length_toList]; omega)]
  rw [List.take_append_of_le_length (by rw [List.length_drop, length_toList]; omega)]

theorem slice_append_right (a b : ByteArray) (offset length : Nat) :
    slice (a ++ b) (a.size + offset) length = slice b offset length := by
  apply bytes_ext
  rw [toList_slice, toList_slice, toList_append, ← length_toList, ← List.drop_drop,
    List.drop_left]

theorem slice_front {piece : ByteArray} {length : Nat} (size : piece.size = length)
    (b : ByteArray) : slice (piece ++ b) 0 length = piece := by
  rw [slice_append_left (by omega), slice_eq_self (by omega)]

theorem slice_middle {a piece : ByteArray} {offset length : Nat} (before : a.size = offset)
    (size : piece.size = length) (b : ByteArray) :
    slice (a ++ (piece ++ b)) offset length = piece := by
  rw [← before, ← Nat.add_zero a.size, slice_append_right, slice_front size]

theorem getElem?_eq_toList (bytes : ByteArray) (index : Nat) :
    bytes[index]? = bytes.data.toList[index]? := by
  rw [Array.getElem?_toList]
  rfl

theorem getElem?_slice {bytes : ByteArray} {offset length index : Nat} (h : index < length) :
    (slice bytes offset length)[index]? = bytes[offset + index]? := by
  rw [getElem?_eq_toList, getElem?_eq_toList, toList_slice, List.getElem?_take_of_lt h,
    List.getElem?_drop]

/-! ## Strings put over a part of others -/

theorem toList_overwrite (buffer : ByteArray) (offset : Nat) (bytes : ByteArray) :
    (overwrite buffer offset bytes).data.toList =
      buffer.data.toList.take offset ++ bytes.data.toList ++
        buffer.data.toList.drop (offset + bytes.size) := by
  have rest : (buffer.data.toList.drop (offset + bytes.size)).length ≤ buffer.size := by
    rw [List.length_drop, length_toList]
    omega
  rw [overwrite, toList_append, toList_append, toList_slice, toList_slice, List.drop_zero,
    List.take_of_length_le rest]

theorem overwrite_empty (buffer : ByteArray) (offset : Nat) :
    overwrite buffer offset .empty = buffer := by
  apply bytes_ext
  rw [toList_overwrite]
  simp

theorem overwrite_overwrite {buffer : ByteArray} {offset : Nat} (inside : offset ≤ buffer.size)
    (a b : ByteArray) :
    overwrite (overwrite buffer offset a) (offset + a.size) b =
      overwrite buffer offset (a ++ b) := by
  have front : (buffer.data.toList.take offset ++ a.data.toList).length = offset + a.size := by
    rw [List.length_append, List.length_take, length_toList, length_toList]
    omega
  apply bytes_ext
  rw [toList_overwrite, toList_overwrite, toList_overwrite, toList_append, ByteArray.size_append,
    ← Nat.add_assoc, ← front, List.take_left, ← List.drop_drop, List.drop_left, List.drop_drop,
    List.append_assoc, List.append_assoc, List.append_assoc, List.append_assoc]

theorem overwrite_zero (buffer bytes : ByteArray) :
    overwrite buffer 0 bytes = bytes ++ slice buffer bytes.size buffer.size := by
  rw [overwrite, slice_zero_length, ByteArray.empty_append, Nat.zero_add]

theorem getElem?_overwrite {buffer : ByteArray} {offset : Nat} (inside : offset ≤ buffer.size)
    (bytes : ByteArray) (index : Nat) :
    (overwrite buffer offset bytes)[index]? =
      if offset ≤ index ∧ index < offset + bytes.size then bytes[index - offset]?
      else buffer[index]? := by
  have front : (buffer.data.toList.take offset).length = offset := by
    rw [List.length_take, length_toList]
    omega
  have both : (buffer.data.toList.take offset ++ bytes.data.toList).length =
      offset + bytes.size := by
    rw [List.length_append, front, length_toList]
  rw [getElem?_eq_toList, getElem?_eq_toList, getElem?_eq_toList, toList_overwrite]
  split
  · rename_i within
    rw [List.getElem?_append_left (by omega), List.getElem?_append_right (by omega), front]
  · rename_i outside
    by_cases before : index < offset
    · rw [List.getElem?_append_left (by omega), List.getElem?_append_left (by omega),
        List.getElem?_take_of_lt before]
    · rw [List.getElem?_append_right (by omega), both, List.getElem?_drop]
      congr 1
      omega

/-! ## Numbers in byte strings -/

theorem numberAt_append_left {a : ByteArray} {offset width : Nat} (h : offset + width ≤ a.size)
    (b : ByteArray) : numberAt (a ++ b) offset width = numberAt a offset width := by
  rw [numberAt, numberAt, slice_append_left h]

theorem numberAt_slice {bytes : ByteArray} {a m b width : Nat} (h : b + width ≤ m) :
    numberAt (slice bytes a m) b width = numberAt bytes (a + b) width := by
  rw [numberAt, numberAt, slice_slice, Nat.min_eq_left (by omega)]

theorem u32At_slice {bytes : ByteArray} {a m b : Nat} (h : b + 4 ≤ m) :
    u32At (slice bytes a m) b = u32At bytes (a + b) := by
  rw [u32At, numberAt_slice h, u32At]

theorem u64At_slice {bytes : ByteArray} {a m b : Nat} (h : b + 8 ≤ m) :
    u64At (slice bytes a m) b = u64At bytes (a + b) := by
  rw [u64At, numberAt_slice h, u64At]

theorem numberAt_of_slice {bytes : ByteArray} {offset width n : Nat}
    (written : slice bytes offset width = ofBytes (littleEndianBytes width n))
    (fits : n < 1 <<< (8 * width)) : numberAt bytes offset width = n := by
  rw [numberAt, written, toList_ofBytes, littleEndian_littleEndianBytes, Nat.mod_eq_of_lt fits]

/-! ## Totals -/

def totalOf : List Nat → Nat
  | [] => 0
  | size :: rest => size + totalOf rest

theorem totalOf_append (sizes rest : List Nat) :
    totalOf (sizes ++ rest) = totalOf sizes + totalOf rest := by
  induction sizes with
  | nil => exact (Nat.zero_add _).symm
  | cons size sizes ih => rw [List.cons_append, totalOf, totalOf, ih, Nat.add_assoc]

theorem totalOf_eq_zero_iff {sizes : List Nat} : totalOf sizes = 0 ↔ ∀ size ∈ sizes, size = 0 := by
  induction sizes with
  | nil => simp [totalOf]
  | cons size rest ih => simp [totalOf, ih]

theorem totalOf_perm {sizes others : List Nat} (same : sizes.Perm others) :
    totalOf sizes = totalOf others := by
  induction same with
  | nil => rfl
  | cons size _ ih => rw [totalOf, totalOf, ih]
  | swap size next rest =>
    simp only [totalOf]
    omega
  | trans _ _ first second => exact first.trans second

/-! ## Joined strings -/

def joined : List ByteArray → ByteArray
  | [] => .empty
  | bytes :: rest => bytes ++ joined rest

theorem size_joined (parts : List ByteArray) :
    (joined parts).size = totalOf (parts.map ByteArray.size) := by
  induction parts with
  | nil => rfl
  | cons bytes rest ih => simp [joined, totalOf, ih]

theorem joined_append (parts rest : List ByteArray) :
    joined (parts ++ rest) = joined parts ++ joined rest := by
  induction parts with
  | nil => simp [joined]
  | cons bytes parts ih => rw [List.cons_append, joined, joined, ih, ByteArray.append_assoc]

theorem slice_joined {parts : List ByteArray} {index : Nat} {bytes : ByteArray}
    (found : parts[index]? = some bytes) {offset length : Nat}
    (inside : offset + length ≤ bytes.size) :
    slice (joined parts) ((joined (parts.take index)).size + offset) length =
      slice bytes offset length := by
  obtain ⟨bound, rfl⟩ := List.getElem?_eq_some_iff.mp found
  have cut : joined parts =
      joined (parts.take index) ++ (parts[index] ++ joined (parts.drop (index + 1))) := by
    rw [← joined, ← joined_append, ← List.drop_eq_getElem_cons bound, List.take_append_drop]
  rw [cut, slice_append_right, slice_append_left inside]

/-! ## Pieces of one size -/

/-- How many pieces of `step` bytes it takes to cover `size`; the last may be shorter. -/
def pieceCount (size step : Nat) : Nat := (size + step - 1) / step

theorem lt_pieceCount {step : Nat} (h : 0 < step) (size index : Nat) :
    index < pieceCount size step ↔ index * step < size := by
  rw [pieceCount, ← Nat.succ_le_iff, Nat.le_div_iff_mul_le h, Nat.succ_mul]
  omega

theorem le_pieceCount_mul {step : Nat} (h : 0 < step) (size : Nat) :
    size ≤ pieceCount size step * step := by
  apply Nat.le_of_not_lt
  intro more
  exact Nat.lt_irrefl _ ((lt_pieceCount h size _).mpr more)

theorem pieceCount_of_le {size step : Nat} (h : 0 < step) (one : size ≤ step) :
    pieceCount size step = min size 1 := by
  have first := lt_pieceCount h size 0
  have second := lt_pieceCount h size 1
  rw [Nat.zero_mul] at first
  rw [Nat.one_mul] at second
  omega

theorem joined_pieces_of_count (bytes : ByteArray) (step count : Nat) :
    joined ((List.range count).map fun index => slice bytes (index * step) step) =
      slice bytes 0 (count * step) := by
  induction count with
  | zero => rw [Nat.zero_mul, slice_zero_length]; rfl
  | succ count ih =>
    rw [List.range_succ, List.map_append, joined_append, ih, List.map_cons, List.map_nil, joined,
      joined, ByteArray.append_empty, Nat.succ_mul, ← slice_append_slice, Nat.zero_add]

end EvidencePages

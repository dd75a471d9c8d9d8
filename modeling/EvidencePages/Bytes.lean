/-!
# Byte strings

Slices of byte arrays, and little-endian numbers read from and written to
them. A number read where bytes are missing takes them as zero.
-/

set_option autoImplicit false

namespace EvidencePages

/-- At most `length` bytes of `bytes` from `offset` on. -/
def slice (bytes : ByteArray) (offset length : Nat) : ByteArray :=
  bytes.extract offset (offset + length)

/-- The buffer with `bytes` in it from `offset` on, and the rest of it as it was. -/
def overwrite (buffer : ByteArray) (offset : Nat) (bytes : ByteArray) : ByteArray :=
  slice buffer 0 offset ++ bytes ++ slice buffer (offset + bytes.size) buffer.size

/-- Buffers are shorter than this. -/
def bufferLimit : Nat := 1 <<< 63

def ofBytes (bytes : List UInt8) : ByteArray := ⟨bytes.toArray⟩

def zeros (length : Nat) : ByteArray := ⟨Array.replicate length 0⟩

def littleEndian : List UInt8 → Nat
  | [] => 0
  | b :: rest => b.toNat + 256 * littleEndian rest

def littleEndianBytes : Nat → Nat → List UInt8
  | 0, _ => []
  | width + 1, n => UInt8.ofNat n :: littleEndianBytes width (n / 256)

theorem littleEndianBytes_length (width n : Nat) : (littleEndianBytes width n).length = width := by
  induction width generalizing n with
  | zero => rfl
  | succ width ih => simp [littleEndianBytes, ih]

theorem littleEndian_littleEndianBytes (width n : Nat) :
    littleEndian (littleEndianBytes width n) = n % 1 <<< (8 * width) := by
  induction width generalizing n with
  | zero => simp [littleEndianBytes, littleEndian, Nat.mod_one]
  | succ width ih =>
    have step : 1 <<< (8 * (width + 1)) = 256 * 1 <<< (8 * width) := by
      simp only [Nat.one_shiftLeft, Nat.mul_add, Nat.pow_add, Nat.mul_one]
      omega
    simp only [littleEndianBytes, littleEndian, ih, step]
    rw [Nat.mod_mul]
    simp

def numberAt (bytes : ByteArray) (offset width : Nat) : Nat :=
  littleEndian (slice bytes offset width).data.toList

def u32At (bytes : ByteArray) (offset : Nat) : UInt32 := UInt32.ofNat (numberAt bytes offset 4)

def u64At (bytes : ByteArray) (offset : Nat) : UInt64 := UInt64.ofNat (numberAt bytes offset 8)

theorem size_slice_le (bytes : ByteArray) (offset length : Nat) :
    (slice bytes offset length).size ≤ length := by
  simp only [slice, ByteArray.size_extract]
  omega

theorem size_slice (bytes : ByteArray) (offset length : Nat) :
    (slice bytes offset length).size = min length (bytes.size - offset) := by
  simp only [slice, ByteArray.size_extract]
  omega

theorem size_overwrite {buffer : ByteArray} {offset : Nat} (inside : offset ≤ buffer.size)
    (bytes : ByteArray) :
    (overwrite buffer offset bytes).size = max buffer.size (offset + bytes.size) := by
  simp only [overwrite, ByteArray.size_append, size_slice]
  omega

end EvidencePages

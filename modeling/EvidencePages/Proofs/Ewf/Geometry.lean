import EvidencePages.Proofs.Ewf.Layout

/-!
# The geometry of acquired media

The volume of a set gives back the size of the media and of each chunk, and
its numbers are all of 64 bits for media that a buffer can hold.
-/

set_option autoImplicit false

namespace EvidencePages.Ewf.Acquisition

variable {a : Acquisition}

theorem chunkSize_pos : 0 < a.chunkSize := Nat.mul_pos (by decide) a.sectors_pos

theorem chunkSize_lt : a.chunkSize < 1 <<< 41 := by
  have sectors := a.sectorsPerChunk.toNat_lt
  rw [chunkSize, sectorSize, Nat.one_shiftLeft]
  omega

theorem lt_chunkCount (index : Nat) :
    index < a.chunkCount ↔ index * a.chunkSize < a.media.size :=
  lt_pieceCount chunkSize_pos _ _

theorem size_chunk (index : Nat) :
    (a.chunk index).size = min a.chunkSize (a.media.size - index * a.chunkSize) :=
  size_slice _ _ _

theorem size_chunk_le (index : Nat) : (a.chunk index).size ≤ a.chunkSize := size_slice_le _ _ _

/-! ## The volume -/

variable (a) in
def volume : Volume :=
  ⟨UInt32.ofNat a.chunkCount, a.sectorsPerChunk, UInt32.ofNat sectorSize,
    UInt64.ofNat (a.media.size / sectorSize)⟩

theorem size_volumeData : a.volumeData.size = 94 := by
  simp [volumeData, littleEndianBytes_length]

theorem parse_volumeData (fits : a.chunkCount < 1 <<< 32) :
    Volume.parse (slice a.volumeData 0 Volume.length) = a.volume := by
  have narrow : ∀ n, (ofBytes (littleEndianBytes 4 n)).size = 4 := fun n => rfl
  have size : a.media.size / sectorSize < 1 <<< 64 := by
    have buffered := a.buffered
    simp only [bufferLimit, Nat.one_shiftLeft] at buffered ⊢
    exact Nat.lt_of_le_of_lt (Nat.div_le_self _ _) (by omega)
  have count : numberAt a.volumeData 4 4 = a.chunkCount :=
    numberAt_of_slice (slice_middle rfl (narrow _) _) fits
  have sectors : numberAt a.volumeData 8 4 = a.sectorsPerChunk.toNat := by
    apply numberAt_of_slice _ (Nat.lt_of_lt_of_eq a.sectorsPerChunk.toNat_lt rfl)
    rw [volumeData, ← ByteArray.append_assoc]
    exact slice_middle (by simp [littleEndianBytes_length]) (narrow _) _
  have sector : numberAt a.volumeData 12 4 = sectorSize := by
    apply numberAt_of_slice _ (by decide)
    rw [volumeData, ← ByteArray.append_assoc, ← ByteArray.append_assoc]
    exact slice_middle (by simp [littleEndianBytes_length]) (narrow _) _
  have total : numberAt a.volumeData 16 8 = a.media.size / sectorSize := by
    apply numberAt_of_slice _ size
    rw [volumeData, ← ByteArray.append_assoc, ← ByteArray.append_assoc, ← ByteArray.append_assoc]
    exact slice_middle (by simp [littleEndianBytes_length]) rfl _
  have field : ∀ {offset width : Nat}, offset + width ≤ Volume.length →
      numberAt (slice a.volumeData 0 Volume.length) offset width =
        numberAt a.volumeData offset width := by
    intro offset width inside
    rw [numberAt_slice inside, Nat.zero_add]
  simp only [Volume.parse, u32At, u64At]
  rw [field (by decide), field (by decide), field (by decide), field (by decide), count, sectors,
    sector, total, UInt32.ofNat_toNat]
  rfl

theorem toNat_volume_chunkSize : a.volume.chunkSize.toNat = a.chunkSize := by
  have bound := chunkSize_lt (a := a)
  rw [chunkSize, Nat.one_shiftLeft] at bound
  have factors : a.volume.chunkSize = a.sectorsPerChunk.toUInt64 * 512 := rfl
  have sector : UInt64.toNat 512 = sectorSize := rfl
  rw [factors, UInt64.toNat_mul, UInt32.toNat_toUInt64, Nat.mul_comm, sector]
  exact Nat.mod_eq_of_lt (by omega)

theorem volume_mediaSize : a.volume.mediaSize = a.media.size := by
  obtain ⟨count, whole⟩ := a.whole
  have buffered := a.buffered
  rw [bufferLimit, Nat.one_shiftLeft, whole, sectorSize] at buffered
  have divided : sectorSize * count / sectorSize = count := Nat.mul_div_cancel_left _ (by decide)
  have sectors : a.volume.sectorCount.toNat = count := by
    rw [volume, UInt64.toNat_ofNat', whole, divided]
    exact Nat.mod_eq_of_lt (by omega)
  have sector : a.volume.bytesPerSector.toNat = sectorSize := rfl
  rw [Volume.mediaSize, sectors, sector, whole, Nat.mul_comm]

theorem volume_mediaSize_lt : a.volume.mediaSize < UInt64.size := by
  have buffered := a.buffered
  rw [bufferLimit, Nat.one_shiftLeft] at buffered
  rw [volume_mediaSize, UInt64.size]
  omega

theorem volume_chunkLength (index : Nat) : a.volume.chunkLength index = (a.chunk index).size := by
  rw [Volume.chunkLength, toNat_volume_chunkSize, volume_mediaSize, size_chunk]

end EvidencePages.Ewf.Acquisition

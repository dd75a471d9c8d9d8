import EvidencePages.Proofs.Ewf.OpenedSets

/-!
# Geometry as it is declared

A volume tells its sizes as counts of sectors and of bytes in a sector. The
size of a chunk is always the product of them, and so is where each chunk
begins that a read looks up. The size of the media is a product that may be too
large for a number, and so is twice the size of a chunk, which is formed for
every compressed chunk, bounded or not. Then neither is given.
-/

set_option autoImplicit false

namespace EvidencePages.Ewf

/-! ## Volumes -/

namespace Volume

def declaredSize (volume : Volume) : Nat :=
  volume.sectorCount.toNat * volume.bytesPerSector.toNat

def declaredChunkSize (volume : Volume) : Nat :=
  volume.sectorsPerChunk.toNat * volume.bytesPerSector.toNat

theorem toNat_chunkSize (volume : Volume) :
    volume.chunkSize.toNat = volume.declaredChunkSize := by
  have sectors := Nat.le_of_lt_succ volume.sectorsPerChunk.toNat_lt
  have bytes := Nat.le_of_lt_succ volume.bytesPerSector.toNat_lt
  have product := Nat.mul_le_mul sectors bytes
  rw [chunkSize, UInt64.toNat_mul, UInt32.toNat_toUInt64, UInt32.toNat_toUInt64,
    Nat.mod_eq_of_lt (Nat.lt_of_le_of_lt product (by decide))]
  rfl

end Volume

namespace Reader

theorem size_eq_ok_iff (reader : Reader) (size : Nat) :
    reader.size = .ok size ↔
      reader.volume.declaredSize < UInt64.size ∧ reader.volume.declaredSize = size := by
  have declared : reader.mediaSize = reader.volume.declaredSize := rfl
  rw [Reader.size, declared]
  by_cases beyond : UInt64.size ≤ reader.volume.declaredSize
  · rw [if_pos beyond]
    simp [Nat.not_lt.mpr beyond]
  · rw [if_neg beyond]
    simp [Nat.not_le.mp beyond]

/-! ## Room for stored chunks -/

theorem doublesOver_iff (volume : Volume) :
    doublesOver volume = true ↔ UInt64.size ≤ 2 * volume.declaredChunkSize := by
  rw [doublesOver, Volume.toNat_chunkSize, decide_eq_true_eq, Nat.mul_comm]

theorem decodeChunk_overflows_iff {now : FileStore} {handle : Handle} {volume : Volume}
    {segmentSize index : Nat} {location : ChunkLocation} {expected : Nat}
    (compressed : location.compressed = true) (inside : location.offset.toNat < segmentSize) :
    decodeChunk now handle volume segmentSize index location expected = .error .overflow ↔
      UInt64.size ≤ 2 * volume.declaredChunkSize := by
  rw [← doublesOver_iff]
  unfold decodeChunk
  dsimp only
  rw [if_neg (Nat.not_le.mpr inside), if_pos compressed]
  by_cases beyond : doublesOver volume = true
  · rw [if_pos beyond]
    exact iff_of_true rfl beyond
  rw [if_neg beyond]
  refine iff_of_false ?_ beyond
  cases read : readBytes now handle location.offset.toNat
      (storedLength volume location (segmentSize - location.offset.toNat)) with
  | error cause =>
    intro failed
    cases failed
    cases isFatal_of_readBytes read
  | ok raw =>
    dsimp only
    split
    · exact nofun
    split
    · exact nofun
    split <;> exact nofun

theorem storedLength_of_unbounded {volume : Volume}
    (narrow : 2 * volume.declaredChunkSize < UInt64.size) {location : ChunkLocation}
    (unbounded : location.stored = none) (available : Nat) :
    storedLength volume location available = min (2 * volume.declaredChunkSize) available := by
  have twice : (volume.chunkSize * 2).toNat = 2 * volume.declaredChunkSize := by
    have two : UInt64.toNat 2 = 2 := rfl
    rw [UInt64.toNat_mul, Volume.toNat_chunkSize, two, Nat.mul_comm, Nat.mod_eq_of_lt narrow]
  rw [storedLength, unbounded, Option.getD_none, twice]

/-! ## Chunks that a read looks up -/

/-- A read of a range looks up the chunk of this index, at first or after other chunks. -/
inductive LooksUp (now : FileStore) : Reader → Nat → Nat → Nat → Prop
  | first {reader : Reader} {offset length : Nat} (some : 0 < length) :
      LooksUp now reader offset length (offset / reader.chunkSize)
  | later {reader next : Reader} {offset length index : Nat} {chunk : ByteArray}
      (read : readChunk now reader (offset / reader.chunkSize) = (.ok chunk, next))
      (more : (slice chunk (offset % reader.chunkSize) length).size ≠ 0)
      (rest : LooksUp now next
        (offset + (slice chunk (offset % reader.chunkSize) length).size)
        (length - (slice chunk (offset % reader.chunkSize) length).size) index) :
      LooksUp now reader offset length index

theorem LooksUp.length_pos {now : FileStore} {reader : Reader} {offset length index : Nat}
    (looks : LooksUp now reader offset length index) : 0 < length := by
  cases looks with
  | first some => exact some
  | @later _ _ _ _ _ chunk read more rest =>
    have bound := size_slice_le chunk (offset % reader.chunkSize) length
    omega

theorem LooksUp.mul_lt {now : FileStore} {reader : Reader} {offset length index : Nat}
    (looks : LooksUp now reader offset length index)
    (inside : offset + length ≤ reader.mediaSize) :
    index * reader.chunkSize < reader.mediaSize := by
  induction looks with
  | first some =>
    have start := Nat.div_mul_le_self
    exact Nat.lt_of_le_of_lt (start _ _) (by omega)
  | @later reader next offset length index chunk read more rest ih =>
    have volume := volume_of_readChunk read
    have media : next.mediaSize = reader.mediaSize := congrArg Volume.mediaSize volume
    have chunks : next.chunkSize = reader.chunkSize := by rw [chunkSize, chunkSize, volume]
    have size := size_slice_le chunk (offset % reader.chunkSize) length
    rw [media, chunks] at ih
    exact ih (by omega)

theorem LooksUp.toNat_start {now : FileStore} {reader : Reader} {offset length index : Nat}
    (counted : reader.mediaSize < UInt64.size) (sized : 0 < reader.chunkSize)
    (looks : LooksUp now reader offset length index)
    (inside : offset + length ≤ reader.mediaSize) :
    (UInt64.ofNat index * reader.volume.chunkSize).toNat = index * reader.chunkSize := by
  have below := looks.mul_lt inside
  have own : index ≤ index * reader.chunkSize := Nat.le_mul_of_pos_right index sized
  have size : UInt64.size = 2 ^ 64 := rfl
  rw [UInt64.toNat_mul, UInt64.toNat_ofNat', Nat.mod_eq_of_lt (a := index) (by omega)]
  exact Nat.mod_eq_of_lt (by rw [← chunkSize]; omega)

/-! ## Opened sets -/

/-- What an opened set reports and forms of the numbers in its volume section. The media are as
large as declared or their size is not given, and then no read gives anything. A compressed chunk is
not read just where twice the size of a chunk is no number. -/
theorem geometry_exact_iff {store : FileStore} {paths : List Path}
    (countable : Countable store paths) {maxOpen : Nat} {opened reader : Reader}
    (success : openParts store paths maxOpen = .ok opened) (reached : Reached opened reader) :
    (∃ files, MadeFrom store paths files opened ∧ firstVolume? files = some reader.volume) ∧
      (∀ size, reader.size = .ok size ↔
        reader.volume.declaredSize < UInt64.size ∧ reader.volume.declaredSize = size) ∧
      (UInt64.size ≤ reader.volume.declaredSize → reader.size = .error .overflow ∧
        ∀ (now : FileStore) (offset length : Nat),
          (readAt now reader offset length).1 = .error .overflow) ∧
      reader.chunkSize = reader.volume.declaredChunkSize ∧
      (∀ (now : FileStore) (handle : Handle) (segmentSize index : Nat) (location : ChunkLocation)
        (expected : Nat), location.compressed = true → location.offset.toNat < segmentSize →
          (decodeChunk now handle reader.volume segmentSize index location expected =
              .error .overflow ↔ UInt64.size ≤ 2 * reader.volume.declaredChunkSize)) ∧
      (2 * reader.volume.declaredChunkSize < UInt64.size →
        ∀ (location : ChunkLocation) (available : Nat), location.stored = none →
          storedLength reader.volume location available =
            min (2 * reader.volume.declaredChunkSize) available) ∧
      ∀ size, reader.size = .ok size → ∀ (now : FileStore) (offset length index : Nat),
        LooksUp now reader offset (min length (size - offset)) index →
          (UInt64.ofNat index * reader.volume.chunkSize).toNat = index * reader.chunkSize := by
  obtain ⟨files, made⟩ := exists_madeFrom countable success
  have sized := (reached.regular (openParts_regular success)).sized
  refine ⟨⟨files, made, reached.volume_eq ▸ made.volume⟩, reader.size_eq_ok_iff, ?_,
    reader.volume.toNat_chunkSize, ?_, ?_, ?_⟩
  · intro beyond
    exact ⟨if_pos beyond, fun now offset length => by rw [readAt_of_uncounted beyond]⟩
  · intro now handle segmentSize index location expected compressed inside
    exact decodeChunk_overflows_iff compressed inside
  · intro narrow location available unbounded
    exact storedLength_of_unbounded narrow unbounded available
  · intro size given now offset length index looks
    obtain ⟨counted, rfl⟩ := (reader.size_eq_ok_iff size).mp given
    have asked := looks.length_pos
    have media : reader.mediaSize = reader.volume.declaredSize := rfl
    exact looks.toNat_start counted sized (by omega)

/-! ## The largest media -/

theorem countable_loneStore (volume : ByteArray) (small : (loneSegment volume).size < UInt64.size) :
    Countable (loneStore volume) [⟨"case.E01"⟩] := by
  intro path listed
  obtain rfl := List.mem_singleton.mp listed
  exact small

def fullest : FileStore := loneStore (volumeSection 1 1 0xFFFFFFFF 0x100000001)

set_option maxRecDepth 20000 in
theorem geometry_exact_fullest :
    Countable fullest [⟨"case.E01"⟩] ∧
      ∃ opened, openParts fullest [⟨"case.E01"⟩] 1 = .ok opened ∧ Reached opened opened ∧
        opened.volume.declaredSize = UInt64.size - 1 ∧ opened.size = .ok (UInt64.size - 1) := by
  have countable : Countable fullest [⟨"case.E01"⟩] := countable_loneStore _ (by decide +kernel)
  obtain ⟨opened, success, runs⟩ := exists_of_opensTo fullest [⟨"case.E01"⟩] 1
    (fun opened => decide (opened.volume.declaredSize = UInt64.size - 1)) (by decide +kernel)
  have declared := of_decide_eq_true runs
  obtain ⟨-, reports, -⟩ := geometry_exact_iff countable success Reached.opened
  refine ⟨countable, opened, success, Reached.opened, declared, ?_⟩
  exact (reports (UInt64.size - 1)).mpr ⟨by rw [declared]; decide, declared⟩

/-- Chunks of more than half of all numbers, of which the first is compressed. -/
def oversized : FileStore :=
  { loneStore .empty with
    contents := #[Acquisition.fileHeader 0 ++ Content.laidOut fileHeaderSize
      [⟨"volume", volumeSection 1 0xFFFFFFFF 0x80000001 1⟩, ⟨"table", tableSection 0 [1 <<< 31]⟩,
        ⟨"done", .empty⟩]] }

set_option maxRecDepth 20000 in
/-- The set opens and tells the size of its media, which is smaller than a chunk, and a read of the
first byte has no outcome. -/
theorem oversized_chunk_overflows :
    ∃ opened, openParts oversized [⟨"case.E01"⟩] 1 = .ok opened ∧
      opened.size = .ok 0x80000001 ∧ opened.volume.declaredSize = 0x80000001 ∧
      2 * opened.volume.declaredChunkSize = UInt64.size + 0xFFFFFFFE ∧
      (readAt oversized opened 0 1).1 = .error .overflow := by
  obtain ⟨opened, success, runs⟩ := exists_of_opensTo oversized [⟨"case.E01"⟩] 1
    (fun opened => decide (opened.size = .ok 0x80000001 ∧
      opened.volume.declaredSize = 0x80000001 ∧
      2 * opened.volume.declaredChunkSize = UInt64.size + 0xFFFFFFFE ∧
      (readAt oversized opened 0 1).1 = .error .overflow)) (by decide +kernel)
  exact ⟨opened, success, of_decide_eq_true runs⟩

end Reader

end EvidencePages.Ewf

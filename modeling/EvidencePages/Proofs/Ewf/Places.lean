import EvidencePages.Proofs.Ewf.Geometry
import EvidencePages.Zlib.Stream

/-!
# Where chunks are stored

The chunks of a segment follow one another in its file, in the order of their
numbers, and the entries of the table say where each of them starts.
-/

set_option autoImplicit false

namespace EvidencePages.Ewf.Acquisition

variable {a : Acquisition}

theorem storedRun_succ (first count : Nat) :
    a.storedRun first (count + 1) = a.storedRun first count ++ a.stored (first + count) := by
  rw [storedRun, List.range'_concat, List.map_append, joined_append, List.map_cons, List.map_nil,
    joined, joined, ByteArray.append_empty, Nat.one_mul]
  rfl

theorem start_succ (segment place : Nat) :
    a.start segment (place + 1) =
      a.start segment place + (a.stored (a.firstChunk segment + place)).size := by
  rw [start, storedRun_succ, ByteArray.size_append, start]
  omega

theorem start_le_start {segment place later : Nat} (h : place ≤ later) :
    a.start segment place ≤ a.start segment later := by
  induction later with
  | zero => exact Nat.le_of_eq (congrArg _ (Nat.le_zero.mp h))
  | succ later ih =>
    rcases Nat.lt_or_eq_of_le h with before | same
    · rw [start_succ]
      exact Nat.le_add_right_of_le (ih (Nat.lt_succ_iff.mp before))
    · exact Nat.le_of_eq (congrArg _ same)

theorem size_stored_pos (inflates : ∀ data, Zlib.decode? (a.deflate data) = some data)
    (index : Nat) : 0 < (a.stored index).size := by
  unfold stored
  split
  · apply Nat.pos_of_ne_zero
    intro empty
    have read := inflates (a.chunk index)
    simp [Zlib.decode?, empty] at read
  · rw [ByteArray.size_append, size_zeros]
    omega

theorem start_lt_start_succ (inflates : ∀ data, Zlib.decode? (a.deflate data) = some data)
    (segment place : Nat) : a.start segment place < a.start segment (place + 1) := by
  rw [start_succ]
  exact Nat.lt_add_of_pos_right (size_stored_pos inflates _)

/-! ## Offsets in a segment file -/

variable (a) in
/-- Where the sectors of a segment end and the descriptor of its table stands. -/
def sectorsStop (segment : Nat) : Nat := a.start segment (a.held segment)

variable (a) in
def entriesOffset (segment : Nat) : Nat :=
  a.sectorsStop segment + Descriptor.length + Table.headerLength

theorem sectorsStop_eq (segment : Nat) :
    a.sectorsStop segment = a.sectorsOffset segment + (a.sectors segment).size := by
  rw [sectorsStop, start, Content.size, sectors]
  exact Nat.add_assoc ..

theorem size_entryBytes (segment count : Nat) :
    (a.entryBytes segment count).size = Table.entryLength * count := by
  rw [entryBytes]
  induction count with
  | zero => rfl
  | succ count ih =>
    rw [List.range_succ, List.map_append, joined_append, ByteArray.size_append, ih,
      Nat.mul_succ]
    rfl

theorem size_table (segment : Nat) :
    (a.table segment).size =
      Descriptor.length + Table.headerLength + Table.entryLength * a.held segment + 4 := by
  simp only [Content.size, table, ByteArray.size_append, size_ofBytes, littleEndianBytes_length,
    size_zeros, size_entryBytes, Table.headerLength]
  omega

theorem size_fileHeader (segment : Nat) : (fileHeader segment).size = fileHeaderSize := by
  simp [fileHeader, signature, littleEndianBytes_length, fileHeaderSize]

theorem size_segmentFile (segment : Nat) :
    (a.segmentFile segment).size =
      a.entriesOffset segment + Table.entryLength * a.held segment + 4 + Descriptor.length := by
  have ending : (a.ending segment).size = Descriptor.length := by
    rw [Content.size, Acquisition.ending]
    rfl
  rw [segmentFile, ByteArray.size_append, Content.size_laidOut, contents,
    Content.totalSize_append, Content.totalSize_cons, Content.totalSize_cons,
    Content.totalSize_cons, Content.totalSize_nil, size_fileHeader, size_table, ending,
    entriesOffset, sectorsStop_eq, sectorsOffset]
  omega

theorem slice_sectors (segment : Nat) :
    slice (a.segmentFile segment) (a.sectorsOffset segment + Descriptor.length)
      (a.sectors segment).data.size = (a.sectors segment).data := by
  have offset : a.sectorsOffset segment + Descriptor.length =
      (fileHeader segment).size +
        (Content.totalSize (a.leading segment) + Descriptor.length) := by
    rw [sectorsOffset, size_fileHeader]
    omega
  rw [segmentFile, offset, slice_append_right]
  exact Content.slice_laidOut _ _ _ _

theorem storedRun_take {first count place : Nat} (h : place ≤ count) :
    joined (((List.range' first count).map a.stored).take place) = a.storedRun first place := by
  rw [← List.map_take, List.take_range'_of_length_ge h]
  rfl

theorem slice_start {segment place : Nat} (h : place < a.held segment) :
    slice (a.segmentFile segment) (a.start segment place)
      (a.stored (a.firstChunk segment + place)).size = a.stored (a.firstChunk segment + place) := by
  have listed : ((List.range' (a.firstChunk segment) (a.held segment)).map a.stored)[place]? =
      some (a.stored (a.firstChunk segment + place)) := by
    simp [h]
  have last : a.start segment (place + 1) ≤ a.sectorsStop segment := start_le_start h
  have run : (a.sectors segment).data.size = a.sectorsStop segment -
      (a.sectorsOffset segment + Descriptor.length) := by
    rw [sectorsStop, start]
    exact (Nat.add_sub_cancel_left ..).symm
  have inner : slice (a.sectors segment).data (a.storedRun (a.firstChunk segment) place).size
      (a.stored (a.firstChunk segment + place)).size =
        a.stored (a.firstChunk segment + place) := by
    have found := slice_joined listed (Nat.le_of_eq (Nat.zero_add _))
    rw [storedRun_take (Nat.le_of_lt h), Nat.add_zero, slice_eq_self (Nat.le_refl _)] at found
    exact found
  rw [← slice_sectors, slice_slice] at inner
  rw [start_succ, start] at last
  rw [Nat.min_eq_left (by omega)] at inner
  exact inner

theorem slice_room {segment place stop : Nat} (h : place < a.held segment)
    (after : a.start segment (place + 1) ≤ stop) :
    slice (a.segmentFile segment) (a.start segment place) (stop - a.start segment place) =
      a.stored (a.firstChunk segment + place) ++
        slice (a.segmentFile segment) (a.start segment (place + 1))
          (stop - a.start segment (place + 1)) := by
  have step := start_succ (a := a) segment place
  have room : stop - a.start segment place = (a.stored (a.firstChunk segment + place)).size +
      (stop - a.start segment (place + 1)) := by omega
  rw [room, ← slice_append_slice, slice_start h, step]

theorem slice_raw {segment place : Nat} (h : place < a.held segment)
    (raw : ¬ isCompressed (a.firstChunk segment + place) = true) :
    slice (a.segmentFile segment) (a.start segment place)
        (a.chunk (a.firstChunk segment + place)).size = a.chunk (a.firstChunk segment + place) ∧
      a.start segment place + (a.chunk (a.firstChunk segment + place)).size ≤
        a.start segment (place + 1) := by
  have stored : a.stored (a.firstChunk segment + place) =
    a.chunk (a.firstChunk segment + place) ++ zeros 4 := if_neg raw
  have size := congrArg ByteArray.size stored
  rw [ByteArray.size_append] at size
  constructor
  · have front := slice_slice (a.segmentFile segment) (a.start segment place)
      (a.stored (a.firstChunk segment + place)).size 0
      (a.chunk (a.firstChunk segment + place)).size
    rw [slice_start h, Nat.add_zero, Nat.min_eq_left (by omega)] at front
    rw [← front, stored, slice_front rfl]
  · rw [start_succ]
    omega

end EvidencePages.Ewf.Acquisition

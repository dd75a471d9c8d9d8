import EvidencePages.Proofs.Ewf.Places

/-!
# What a table says

An entry gives back where a chunk starts and whether it is compressed. Any
number of entries from the front of a table locates as many chunks, the last
of them up to the end of the sectors.
-/

set_option autoImplicit false

namespace EvidencePages.Ewf

theorem Table.toNat_distance (entry : UInt32) :
    (distance entry).toNat = entry.toNat % 1 <<< 31 := by
  have low : (compressedBit - 1).toNat = 2 ^ 31 - 1 := rfl
  rw [distance, UInt32.toNat_toUInt64, UInt32.toNat_and, low, Nat.and_two_pow_sub_one_eq_mod,
    Nat.one_shiftLeft]

theorem Table.not_overflows_zero (entry : UInt32) : overflows 0 entry = false := by
  have start : UInt64.toNat 0 = 0 := rfl
  rw [overflows, start, Nat.zero_add, toNat_distance, Nat.one_shiftLeft, UInt64.size]
  exact decide_eq_false (by omega)

theorem Table.withExtents_map_range' (stop : Option UInt64) (f : Nat → ChunkLocation)
    (first count : Nat) :
    withExtents stop ((List.range' first count).map f) =
      (List.range' first count).map fun place =>
        { f place with
          stored := extent (f place).offset
            (if place + 1 < first + count then some (f (place + 1)).offset else stop) } := by
  induction count generalizing first with
  | zero => rfl
  | succ count ih =>
    cases count with
    | zero => simp [List.range', withExtents]
    | succ count =>
      have tail := ih (first + 1)
      have later : first + 1 + (count + 1) = first + (count + 1 + 1) := by omega
      have more : first + 1 < first + (count + 1 + 1) := by omega
      rw [later, List.range'_succ] at tail
      rw [List.range'_succ, List.range'_succ]
      simp only [List.map_cons, withExtents, if_pos more] at tail ⊢
      rw [tail]

theorem Table.extent_ofNat {offset stop : Nat} (before : offset < stop) (small : stop < 1 <<< 64) :
    extent (UInt64.ofNat offset) (some (UInt64.ofNat stop)) =
      some (UInt64.ofNat (stop - offset)) := by
  rw [Nat.one_shiftLeft] at small
  have order : UInt64.ofNat offset < UInt64.ofNat stop :=
    (UInt64.ofNat_lt_iff_lt (Nat.lt_trans before small) small).mpr before
  rw [extent, if_pos order, ← UInt64.ofNat_sub (Nat.le_of_lt before)]

theorem and_one_shiftLeft_eq_zero_iff (n i : Nat) : n &&& 1 <<< i = 0 ↔ n.testBit i = false := by
  rw [Nat.one_shiftLeft]
  constructor
  · intro none
    have bit := congrArg (·.testBit i) none
    simpa [Nat.testBit_and, Nat.testBit_two_pow_self] using bit
  · intro clear
    apply Nat.eq_of_testBit_eq
    intro j
    rw [Nat.testBit_and, Nat.testBit_two_pow, Nat.zero_testBit]
    by_cases same : i = j
    · rw [← same, clear]
      rfl
    · rw [decide_eq_false same, Bool.and_false]

namespace Acquisition

variable {a : Acquisition}

theorem toNat_entry {segment place : Nat} (small : a.start segment place < 1 <<< 31) :
    (a.entry segment place).toNat =
      a.start segment place +
        (if isCompressed (a.firstChunk segment + place) then 1 <<< 31 else 0) := by
  rw [Nat.one_shiftLeft] at small
  have offset : (UInt32.ofNat (a.start segment place)).toNat = a.start segment place := by
    rw [UInt32.toNat_ofNat', Nat.mod_eq_of_lt (by omega)]
  rw [entry, UInt32.toNat_or, offset]
  split
  · have mark : Table.compressedBit.toNat = 2 ^ 31 * 1 := rfl
    rw [mark, Nat.or_comm, ← Nat.two_pow_add_eq_or_of_lt small 1, Nat.one_shiftLeft, Nat.add_comm,
      Nat.mul_one]
  · exact Nat.or_zero _

theorem entryAt_entry {segment place : Nat} (small : a.start segment place < 1 <<< 31)
    (part : Nat) : Table.entryAt part 0 (a.entry segment place) =
      ⟨part, UInt64.ofNat (a.start segment place),
        isCompressed (a.firstChunk segment + place), none⟩ := by
  have number := toNat_entry small
  rw [Nat.one_shiftLeft] at small number
  have offset : a.entry segment place &&& (Table.compressedBit - 1) =
      UInt32.ofNat (a.start segment place) := by
    apply UInt32.toNat_inj.mp
    have mask : (Table.compressedBit - 1).toNat = 2 ^ 31 - 1 := rfl
    rw [UInt32.toNat_and, mask, Nat.and_two_pow_sub_one_eq_mod, number, UInt32.toNat_ofNat',
      Nat.mod_eq_of_lt (a := a.start segment place) (by omega)]
    split <;> omega
  have mark : decide (a.entry segment place &&& Table.compressedBit ≠ 0) =
      isCompressed (a.firstChunk segment + place) := by
    have bit : a.entry segment place &&& Table.compressedBit = 0 ↔
        (a.entry segment place).toNat.testBit 31 = false := by
      have flag : Table.compressedBit.toNat = 1 <<< 31 := rfl
      rw [← and_one_shiftLeft_eq_zero_iff, ← flag, ← UInt32.toNat_and, ← UInt32.toNat_inj]
      rfl
    have low : (a.start segment place).testBit 31 = false := Nat.testBit_lt_two_pow small
    rw [number] at bit
    cases compressed : isCompressed (a.firstChunk segment + place) with
    | true =>
      rw [compressed, if_pos rfl, Nat.add_comm, Nat.testBit_two_pow_add_eq, low] at bit
      simp [bit]
    | false =>
      rw [compressed, if_neg Bool.false_ne_true, Nat.add_zero] at bit
      simp [bit, low]
  rw [Table.entryAt, Table.distance, offset, mark,
    UInt32.toUInt64_ofNat' (by rw [UInt32.size]; omega), UInt64.zero_add]

/-! ## Located chunks -/

variable (a) in
/-- Where the table of segment file `part` puts the chunk at `place`, when `count` entries are
known: up to the next one of them, or to the end of the sectors. -/
def location (part segment count place : Nat) : ChunkLocation where
  segment := part
  offset := UInt64.ofNat (a.start segment place)
  compressed := isCompressed (a.firstChunk segment + place)
  stored := some (UInt64.ofNat
    ((if place + 1 < count then a.start segment (place + 1) else a.sectorsStop segment) -
      a.start segment place))

variable (a) in
def located (part segment count : Nat) : List ChunkLocation :=
  (List.range count).map (a.location part segment count)

theorem sectorsStop_le (segment : Nat) :
    a.sectorsStop segment + 180 ≤ (a.segmentFile segment).size := by
  rw [size_segmentFile, entriesOffset, Table.headerLength, Descriptor.length]
  omega

theorem start_lt_stop (inflates : ∀ data, Zlib.decode? (a.deflate data) = some data)
    {segment place : Nat} (h : place < a.held segment) :
    a.start segment place < a.sectorsStop segment :=
  Nat.lt_of_lt_of_le (start_lt_start_succ inflates segment place) (start_le_start h)

theorem withExtents_entries (inflates : ∀ data, Zlib.decode? (a.deflate data) = some data)
    {segment count : Nat} (known : count ≤ a.held segment)
    (small : a.sectorsStop segment < 1 <<< 31) (part : Nat) :
    Table.withExtents (some (UInt64.ofNat (a.sectorsStop segment)))
      (((List.range count).map (a.entry segment)).map (Table.entryAt part 0)) =
        a.located part segment count := by
  have wide : 1 <<< 31 < 1 <<< 64 := by decide
  rw [List.map_map, List.range_eq_range', Table.withExtents_map_range', located,
    List.range_eq_range']
  apply List.map_congr_left
  intro place listed
  have inside : place < count := by
    have bounds := (List.mem_range'_1.mp listed).2
    omega
  have before := start_lt_stop inflates (Nat.lt_of_lt_of_le inside known)
  have next := start_lt_start_succ inflates segment place
  have reach : a.start segment (place + 1) ≤ a.sectorsStop segment :=
    start_le_start (Nat.lt_of_lt_of_le inside known)
  rw [Function.comp_apply, entryAt_entry (by omega), location, Nat.zero_add]
  dsimp only
  split
  · rw [Function.comp_apply, entryAt_entry (by omega), Table.extent_ofNat next (by omega)]
  · rw [Table.extent_ofNat before (by omega)]

theorem u32At_entryBytes {segment count place : Nat} (h : place < count) :
    u32At (a.entryBytes segment count) (Table.entryLength * place) = a.entry segment place := by
  have listed : ((List.range count).map fun place =>
      ofBytes (littleEndianBytes 4 (a.entry segment place).toNat))[place]? =
        some (ofBytes (littleEndianBytes 4 (a.entry segment place).toNat)) := by
    simp [h]
  have before : (joined (((List.range count).map fun place =>
      ofBytes (littleEndianBytes 4 (a.entry segment place).toNat)).take place)).size =
        Table.entryLength * place := by
    rw [← List.map_take, List.take_range, Nat.min_eq_left (Nat.le_of_lt h)]
    exact size_entryBytes segment place
  have found := slice_joined listed (Nat.le_of_eq (Nat.zero_add _))
  rw [before, Nat.add_zero, slice_eq_self (Nat.le_refl _)] at found
  have written : slice (a.entryBytes segment count) (Table.entryLength * place) 4 =
      ofBytes (littleEndianBytes 4 (a.entry segment place).toNat) := found
  rw [u32At, numberAt_of_slice written (a.entry segment place).toNat_lt, UInt32.ofNat_toNat]

theorem entries_of_cut (segment count length : Nat) :
    Table.entries (slice (a.entryBytes segment count) 0 length) =
      (List.range (min count (length / Table.entryLength))).map (a.entry segment) := by
  have four : Table.entryLength = 4 := rfl
  rw [Table.entries, size_slice, size_entryBytes, four]
  have whole : min length (4 * count - 0) / 4 = min count (length / 4) := by omega
  rw [whole]
  apply List.map_congr_left
  intro place listed
  have inside := List.mem_range.mp listed
  rw [u32At, numberAt_slice (by omega), Nat.zero_add]
  exact u32At_entryBytes (by omega)

end Acquisition

end EvidencePages.Ewf

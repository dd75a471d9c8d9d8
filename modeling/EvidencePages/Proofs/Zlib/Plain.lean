import EvidencePages.Proofs.Zlib.Extension

/-!
# Streams of plain blocks

Data that do not shrink are written as they are, in blocks that each fit the
two bytes of their length. Such a stream decodes to its data, whatever they
are. Short data that shrink are written in the fixed codes.
-/

set_option autoImplicit false

namespace EvidencePages.Zlib

def plainLimit : Nat := 65535

def plainHeader (final : Bool) (length : Nat) : ByteArray :=
  ofBytes ((if final then 1 else 0) ::
    (littleEndianBytes 2 length ++ littleEndianBytes 2 (plainLimit - length)))

@[simp] theorem size_plainHeader (final : Bool) (length : Nat) :
    (plainHeader final length).size = 5 := rfl

def plainBlocks (data : ByteArray) : ByteArray :=
  if data.size ≤ plainLimit then plainHeader true data.size ++ data
  else plainHeader false plainLimit ++ (slice data 0 plainLimit ++
    plainBlocks (slice data plainLimit (data.size - plainLimit)))
termination_by data.size
decreasing_by
  have := size_slice_le data plainLimit (data.size - plainLimit)
  have : 0 < plainLimit := by decide
  omega

def adlerBytes (data : ByteArray) : ByteArray :=
  ofBytes (littleEndianBytes 4 (adler32 data)).reverse

def plainStream (data : ByteArray) : ByteArray :=
  ofBytes [0x78, 0x9C] ++ (plainBlocks data ++ adlerBytes data)

/-! ## Reading one block -/

namespace Bits

theorem bit?_of_getElem? {bytes : ByteArray} {p k : Nat} {b : UInt8} (found : bytes[p]? = some b)
    (h : k < 8) : bit? ⟨bytes, 8 * p + k⟩ = some (b.toNat >>> k % 2, ⟨bytes, 8 * p + (k + 1)⟩) := by
  have offset : (8 * p + k) / 8 = p := by omega
  have place : (8 * p + k) % 8 = k := by omega
  simp only [bit?, offset, place, found, Nat.add_assoc]

theorem take?_of_byteOffset {bytes : ByteArray} {position p length : Nat}
    (offset : (position + 7) / 8 = p) (inside : p + length ≤ bytes.size) :
    take? ⟨bytes, position⟩ length = some (slice bytes p length, ⟨bytes, 8 * (p + length)⟩) := by
  simp only [take?, byteOffset, offset, if_pos inside]

end Bits

theorem plain?_of_header {bytes : ByteArray} {p length : Nat} (h : length ≤ plainLimit)
    (header : slice bytes (p + 1) 4 =
      ofBytes (littleEndianBytes 2 length ++ littleEndianBytes 2 (plainLimit - length)))
    (inside : p + 5 + length ≤ bytes.size) (out : ByteArray) :
    plain? ⟨bytes, 8 * p + 3⟩ out =
      some (out ++ slice bytes (p + 5) length, ⟨bytes, 8 * (p + 5 + length)⟩) := by
  have limit : plainLimit = 65535 := rfl
  have size : ∀ n, (ofBytes (littleEndianBytes 2 n)).size = 2 := fun n => rfl
  rw [ofBytes_append] at header
  have low : numberAt (slice bytes (p + 1) 4) 0 2 = length := by
    apply numberAt_of_slice
    · rw [header]
      exact slice_front (size _) _
    · rw [Nat.one_shiftLeft]
      omega
  have high : numberAt (slice bytes (p + 1) 4) 2 2 = plainLimit - length := by
    apply numberAt_of_slice
    · rw [header, ← ByteArray.append_empty (b := ofBytes _ ++ ofBytes _), ByteArray.append_assoc]
      exact slice_middle (size _) (size _) _
    · rw [Nat.one_shiftLeft]
      omega
  rw [plain?, Bits.take?_of_byteOffset (p := p + 1) (by omega) (by omega)]
  dsimp only
  rw [low, high, if_pos (by omega), Bits.take?_of_byteOffset (p := p + 5) (by omega) inside]

theorem inflateFrom_plain {bytes : ByteArray} {p length : Nat} (final : Bool)
    (h : length ≤ plainLimit) (header : slice bytes p 5 = plainHeader final length)
    (inside : p + 5 + length ≤ bytes.size) (out : ByteArray) :
    inflateFrom ⟨bytes, 8 * p⟩ out =
      if final then some (out ++ slice bytes (p + 5) length, ⟨bytes, 8 * (p + 5 + length)⟩)
      else inflateFrom ⟨bytes, 8 * (p + 5 + length)⟩ (out ++ slice bytes (p + 5) length) := by
  have mark : bytes[p]? = some (if final then 1 else 0) := by
    rw [← Nat.add_zero p, ← getElem?_slice (show 0 < 5 by decide), header]
    rfl
  have lengths : slice bytes (p + 1) 4 =
      ofBytes (littleEndianBytes 2 length ++ littleEndianBytes 2 (plainLimit - length)) := by
    have inner := slice_slice bytes p 5 1 4
    rw [header] at inner
    exact inner.symm
  have kind : Bits.number? 2 ⟨bytes, 8 * p + 1⟩ = some (0, ⟨bytes, 8 * p + 3⟩) := by
    have low := Bits.bit?_of_getElem? mark (k := 1) (by decide)
    have high := Bits.bit?_of_getElem? mark (k := 2) (by decide)
    simp only [Bits.number?, low, high]
    cases final <;> rfl
  have first := Bits.bit?_of_getElem? mark (k := 0) (by decide)
  rw [Nat.add_zero] at first
  rw [inflateFrom_block first kind (plain?_of_header h lengths inside out)]
  cases final <;> rfl

/-! ## Reading a stream -/

theorem inflateFrom_plainBlocks (data before rest out : ByteArray) :
    inflateFrom ⟨before ++ (plainBlocks data ++ rest), 8 * before.size⟩ out =
      some (out ++ data, ⟨before ++ (plainBlocks data ++ rest),
        8 * (before.size + (plainBlocks data).size)⟩) := by
  -- Every block but the last is full, and the next one starts at a whole byte behind it.
  fun_induction plainBlocks data generalizing before out with
  | case1 data fits =>
    have sizes : (plainHeader true data.size ++ data).size = 5 + data.size := by
      rw [ByteArray.size_append, size_plainHeader]
    rw [ByteArray.append_assoc]
    have header : slice (before ++ (plainHeader true data.size ++ (data ++ rest))) before.size 5 =
        plainHeader true data.size := slice_middle rfl rfl _
    have body : slice (before ++ (plainHeader true data.size ++ (data ++ rest)))
        (before.size + 5) data.size = data := by
      rw [← ByteArray.append_assoc (a := before)]
      exact slice_middle (by rw [ByteArray.size_append, size_plainHeader]) rfl _
    rw [inflateFrom_plain true fits header (by simp; omega), if_pos rfl, body, sizes]
    congr 4
    omega
  | case2 data more ih =>
    have size : (slice data 0 plainLimit).size = plainLimit := by
      rw [size_slice]
      omega
    have whole : slice data 0 plainLimit ++ slice data plainLimit (data.size - plainLimit) =
        data := by
      have cut := slice_append_slice data 0 plainLimit (data.size - plainLimit)
      rw [Nat.zero_add, Nat.add_sub_cancel' (by omega)] at cut
      rw [cut, slice_eq_self (Nat.le_refl _)]
    generalize slice data 0 plainLimit = first at size whole ⊢
    generalize slice data plainLimit (data.size - plainLimit) = others at whole ih ⊢
    have step := ih (before ++ (plainHeader false plainLimit ++ first)) (out ++ first)
    simp only [ByteArray.append_assoc, ByteArray.size_append, size_plainHeader, size] at step ⊢
    rw [inflateFrom_plain false (Nat.le_refl plainLimit)
      (slice_middle rfl (size_plainHeader _ _) _)
      (by simp only [ByteArray.size_append, size_plainHeader]; omega)]
    have body : slice (before ++ (plainHeader false plainLimit ++
        (first ++ (plainBlocks others ++ rest)))) (before.size + 5) plainLimit = first := by
      rw [← ByteArray.append_assoc (a := before)]
      exact slice_middle (by rw [ByteArray.size_append, size_plainHeader]) size _
    rw [if_neg (by decide), body, Nat.add_assoc, step, whole]
    congr 3
    omega

@[simp] theorem size_adlerBytes (data : ByteArray) : (adlerBytes data).size = 4 := rfl

theorem size_plainStream {data : ByteArray} (fits : data.size ≤ plainLimit) :
    (plainStream data).size = data.size + 11 := by
  have blocks : (plainBlocks data).size = 5 + data.size := by
    rw [plainBlocks, if_pos fits, ByteArray.size_append, size_plainHeader]
  rw [plainStream, ByteArray.size_append, ByteArray.size_append, size_adlerBytes, blocks,
    size_ofBytes]
  simp only [List.length_cons, List.length_nil]
  omega

theorem adler32_lt (data : ByteArray) : adler32 data < 1 <<< (8 * 4) := by
  have bounded : ∀ (bytes : List UInt8) (sums : Nat × Nat),
      sums.1 < adlerModulus ∧ sums.2 < adlerModulus →
      (bytes.foldl adlerStep sums).1 < adlerModulus ∧
        (bytes.foldl adlerStep sums).2 < adlerModulus := by
    intro bytes
    induction bytes with
    | nil => exact fun sums start => start
    | cons byte rest ih =>
      intro sums start
      exact ih _ ⟨Nat.mod_lt _ (by decide), Nat.mod_lt _ (by decide)⟩
  obtain ⟨low, high⟩ := bounded data.data.toList (1, 0) (by decide)
  rw [Array.foldl_toList] at low high
  have modulus : adlerModulus = 65521 := rfl
  have sums : adler32 data = (data.data.foldl adlerStep (1, 0)).2 * 65536 +
      (data.data.foldl adlerStep (1, 0)).1 := rfl
  rw [sums, Nat.one_shiftLeft]
  omega

theorem bigEndian_adlerBytes (data : ByteArray) : bigEndian (adlerBytes data) = adler32 data := by
  rw [bigEndian, adlerBytes, toList_ofBytes, List.reverse_reverse, littleEndian_littleEndianBytes,
    Nat.mod_eq_of_lt (adler32_lt data)]

theorem decode?_plainStream (data : ByteArray) : decode? (plainStream data) = some data := by
  have size : (plainStream data).size = 2 + ((plainBlocks data).size + 4) := by
    rw [plainStream, ByteArray.size_append, ByteArray.size_append, size_adlerBytes]
    rfl
  have wide : 2 ≤ (plainStream data).size := by omega
  have header : isHeader (numberAt (plainStream data) 0 1) (numberAt (plainStream data) 1 1) := by
    rw [plainStream, numberAt_append_left (by decide), numberAt_append_left (by decide)]
    simp [numberAt, littleEndian, isHeader]
  have inflated := inflateFrom_plainBlocks data (ofBytes [0x78, 0x9C]) (adlerBytes data) .empty
  rw [← plainStream] at inflated
  have checksum : slice (plainStream data) (2 + (plainBlocks data).size) 4 = adlerBytes data := by
    rw [plainStream, ← ByteArray.append_empty (b := adlerBytes data),
      ← ByteArray.append_assoc (b := plainBlocks data)]
    exact slice_middle (by rw [ByteArray.size_append]; rfl) rfl _
  have taken : Bits.take? ⟨plainStream data, 8 * (2 + (plainBlocks data).size)⟩ 4 =
      some (slice (plainStream data) (2 + (plainBlocks data).size) 4, _) :=
    Bits.take?_of_byteOffset (by omega) (by omega)
  rw [ByteArray.empty_append] at inflated
  have start : inflateFrom ⟨plainStream data, 16⟩ .empty =
      some (data, ⟨plainStream data, 8 * (2 + (plainBlocks data).size)⟩) := inflated
  simp only [decode?, wide, header, start, taken, checksum, bigEndian_adlerBytes, if_pos,
    decide_true, Bool.and_self]

/-! ## The fixed codes -/

def fixedLiterals : PrefixCode :=
  ⟨[0, 0, 0, 0, 0, 0, 24, 152, 112, 0, 0, 0, 0, 0, 0],
    (List.range' 256 24 ++ List.range' 0 144 ++ List.range' 280 8 ++ List.range' 144 112).toArray⟩

def fixedDistances : PrefixCode :=
  ⟨[0, 0, 0, 0, 32, 0, 0, 0, 0, 0, 0, 0, 0, 0, 0], (List.range 32).toArray⟩

set_option maxRecDepth 20000 in
theorem ofLengths_fixedLiteralLengths :
    PrefixCode.ofLengths fixedLiteralLengths = fixedLiterals := by
  rfl

theorem ofLengths_fixedDistanceLengths :
    PrefixCode.ofLengths fixedDistanceLengths = fixedDistances := by
  rfl

theorem block?_fixed (bits : Bits) (out : ByteArray) :
    block? 1 bits out = elements fixedLiterals fixedDistances bits out := by
  rw [block?, if_neg (by decide), if_pos rfl, ofLengths_fixedLiteralLengths,
    ofLengths_fixedDistanceLengths]

end EvidencePages.Zlib

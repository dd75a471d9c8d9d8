import EvidencePages.Proofs.Bytes
import EvidencePages.Zlib.Stream

/-!
# Bytes behind a stream

A decoder takes what it needs from the front of its input. Whatever stands
behind, each read that succeeds gives the same and leaves the same, so a
stream decodes to the same bytes with anything after it, and an input that
holds a part of a stream decodes to what the whole does or not at all.
-/

set_option autoImplicit false

namespace EvidencePages.Zlib

namespace Bits

/-- The same bits with more bytes behind them. -/
def extend (bits : Bits) (rest : ByteArray) : Bits := ⟨bits.bytes ++ rest, bits.position⟩

variable {bits next : Bits}

theorem bit?_extend {b : Nat} (read : bits.bit? = some (b, next)) (rest : ByteArray) :
    (bits.extend rest).bit? = some (b, next.extend rest) := by
  unfold bit? at read
  split at read
  · cases read
  · rename_i byte found
    obtain ⟨bound, rfl⟩ := getElem?_eq_some_iff.mp found
    cases read
    have there : (bits.bytes ++ rest)[bits.position / 8]? = some bits.bytes[bits.position / 8] := by
      rw [getElem?_eq_some_iff]
      exact ⟨by rw [ByteArray.size_append]; omega, ByteArray.getElem_append_left bound⟩
    simp only [bit?, extend, there]

theorem number?_extend {width n : Nat} (read : bits.number? width = some (n, next))
    (rest : ByteArray) : (bits.extend rest).number? width = some (n, next.extend rest) := by
  induction width generalizing bits n with
  | zero =>
    cases read
    rfl
  | succ width ih =>
    unfold number? at read
    split at read
    · cases read
    · rename_i low middle first
      split at read
      · cases read
      · rename_i high last others
        cases read
        simp only [number?, bit?_extend first rest, ih others]

theorem take?_extend {length : Nat} {taken : ByteArray}
    (read : bits.take? length = some (taken, next)) (rest : ByteArray) :
    (bits.extend rest).take? length = some (taken, next.extend rest) := by
  unfold take? at read
  dsimp only at read
  split at read
  · rename_i inside
    cases read
    have offset : (bits.extend rest).byteOffset = bits.byteOffset := rfl
    have bytes : (bits.extend rest).bytes = bits.bytes ++ rest := rfl
    have wide : bits.byteOffset + length ≤ (bits.bytes ++ rest).size := by
      rw [ByteArray.size_append]
      omega
    simp only [take?, offset, bytes, if_pos wide, slice_append_left inside]
    rfl
  · cases read

end Bits

theorem PrefixCode.descend_extend {symbols : Array Nat} {counts : List Nat}
    {first index word symbol : Nat} {bits next : Bits}
    (read : descend symbols counts first index word bits = some (symbol, next))
    (rest : ByteArray) :
    descend symbols counts first index word (bits.extend rest) =
      some (symbol, next.extend rest) := by
  induction counts generalizing first index word bits with
  | nil => cases read
  | cons count counts ih =>
    unfold descend at read ⊢
    split at read
    · cases read
    · rename_i bit middle one
      rw [Bits.bit?_extend one rest]
      dsimp only at read ⊢
      by_cases here : word + bit < first + count
      · rw [if_pos here] at read ⊢
        split at read
        · cases read
        · cases read
          rfl
      · rw [if_neg here] at read ⊢
        exact ih read

theorem PrefixCode.decode?_extend {code : PrefixCode} {bits next : Bits} {symbol : Nat}
    (read : code.decode? bits = some (symbol, next)) (rest : ByteArray) :
    code.decode? (bits.extend rest) = some (symbol, next.extend rest) :=
  descend_extend read rest

/-! ## Literals and copies -/

theorem based?_extend {bases : List (Nat × Nat)} {symbol n : Nat} {bits next : Bits}
    (read : based? bases symbol bits = some (n, next)) (rest : ByteArray) :
    based? bases symbol (bits.extend rest) = some (n, next.extend rest) := by
  unfold based? at read
  split at read
  · cases read
  · rename_i entry
    split at read
    · cases read
    · rename_i number
      cases read
      simp only [based?, entry, Bits.number?_extend number rest]

theorem copy?_extend {distances : PrefixCode} {symbol : Nat} {bits next : Bits}
    {element : Element} (read : copy? distances symbol bits = some (element, next))
    (rest : ByteArray) :
    copy? distances symbol (bits.extend rest) = some (element, next.extend rest) := by
  unfold copy? at read ⊢
  split at read
  · cases read
  · rename_i length
    rw [based?_extend length rest]
    dsimp only
    split at read
    · cases read
    · rename_i decoded
      rw [PrefixCode.decode?_extend decoded rest]
      dsimp only
      split at read
      · cases read
      · rename_i distance
        rw [based?_extend distance rest]
        cases read
        rfl

theorem element?_extend {literals distances : PrefixCode} {bits next : Bits} {element : Element}
    (read : element? literals distances bits = some (element, next)) (rest : ByteArray) :
    element? literals distances (bits.extend rest) = some (element, next.extend rest) := by
  unfold element? at read ⊢
  split at read
  · cases read
  · rename_i symbol middle decoded
    rw [PrefixCode.decode?_extend decoded rest]
    dsimp only
    split at read
    · rename_i literal
      cases read
      rw [if_pos literal]
    · rename_i other
      rw [if_neg other]
      split at read
      · rename_i stop
        cases read
        rw [if_pos stop]
      · rename_i copy
        rw [if_neg copy]
        exact copy?_extend read rest

variable {literals distances : PrefixCode} {bits next : Bits}

theorem elements_stop (read : element? literals distances bits = some (.stop, next))
    (out : ByteArray) : elements literals distances bits out = some (out, next) := by
  rw [elements]
  split <;> simp_all

theorem elements_literal {byte : UInt8}
    (read : element? literals distances bits = some (.literal byte, next)) (out : ByteArray) :
    elements literals distances bits out = elements literals distances next (out.push byte) := by
  rw [elements]
  split <;> simp_all

theorem elements_copy {length distance : Nat}
    (read : element? literals distances bits = some (.copy length distance, next))
    (out : ByteArray) : elements literals distances bits out =
      elements literals distances next (copyBack distance length out) := by
  rw [elements]
  split <;> simp_all

theorem elements_extend {out result : ByteArray}
    (read : elements literals distances bits out = some (result, next)) (rest : ByteArray) :
    elements literals distances (bits.extend rest) out = some (result, next.extend rest) := by
  fun_induction elements literals distances bits out with
  | case1 => cases read
  | case2 bits out middle decoded =>
    cases read
    exact elements_stop (element?_extend decoded rest) _
  | case3 bits out byte middle decoded ih =>
    rw [elements_literal (element?_extend decoded rest)]
    exact ih read
  | case4 bits out length distance middle decoded ih =>
    rw [elements_copy (element?_extend decoded rest)]
    exact ih read

/-! ## The codes of a block -/

theorem numbers?_extend {width count : Nat} {ns : List Nat} {bits next : Bits}
    (read : numbers? width count bits = some (ns, next)) (rest : ByteArray) :
    numbers? width count (bits.extend rest) = some (ns, next.extend rest) := by
  induction count generalizing bits ns with
  | zero =>
    cases read
    rfl
  | succ count ih =>
    unfold numbers? at read
    split at read
    · cases read
    · rename_i n middle first
      split at read
      · cases read
      · rename_i others last tail
        cases read
        simp only [numbers?, Bits.number?_extend first rest, ih tail]

theorem run?_extend {known run : List Nat} {symbol : Nat} {bits next : Bits}
    (read : run? known symbol bits = some (run, next)) (rest : ByteArray) :
    run? known symbol (bits.extend rest) = some (run, next.extend rest) := by
  unfold run? at read ⊢
  by_cases single : symbol < 16
  · rw [if_pos single] at read ⊢
    cases read
    rfl
  · rw [if_neg single] at read ⊢
    dsimp only at read ⊢
    split at read
    · rename_i value number
      cases read
      rw [value, Bits.number?_extend number rest]
    · cases read

theorem wordLengths?_extend {code : PrefixCode} {count : Nat} {known lengths : List Nat}
    {bits next : Bits} (read : wordLengths? code count known bits = some (lengths, next))
    (rest : ByteArray) :
    wordLengths? code count known (bits.extend rest) = some (lengths, next.extend rest) := by
  fun_induction wordLengths? code count known bits with
  | case1 => cases read
  | case2 => cases read
  | case3 known bits more symbol middle decoded run last ran ih =>
    have wide := PrefixCode.decode?_extend decoded rest
    have further := run?_extend ran rest
    rw [wordLengths?, if_pos more]
    split
    · simp_all
    · rename_i symbol' middle' decoded'
      obtain ⟨rfl, rfl⟩ : symbol = symbol' ∧ middle.extend rest = middle' := by simp_all
      split
      · simp_all
      · simp_all
  | case4 known bits full exact =>
    cases read
    rw [wordLengths?, if_neg full, if_pos exact]
  | case5 => cases read

theorem codes?_extend {literals distances : PrefixCode} {bits next : Bits}
    (read : codes? bits = some (literals, distances, next)) (rest : ByteArray) :
    codes? (bits.extend rest) = some (literals, distances, next.extend rest) := by
  -- Each number that is read is read from the longer bits as well.
  unfold codes? at read ⊢
  split at read
  · cases read
  · rename_i literalCount
    rw [Bits.number?_extend literalCount rest]
    dsimp only
    split at read
    · cases read
    · rename_i distanceCount
      rw [Bits.number?_extend distanceCount rest]
      dsimp only
      split at read
      · cases read
      · rename_i lengthCount
        rw [Bits.number?_extend lengthCount rest]
        dsimp only at read ⊢
        split at read
        · rename_i counts
          rw [if_pos counts]
          split at read
          · cases read
          · rename_i lengths
            rw [numbers?_extend lengths rest]
            dsimp only
            split at read
            · rename_i complete
              rw [if_pos complete]
              split at read
              · cases read
              · rename_i words
                rw [wordLengths?_extend words rest]
                dsimp only
                split at read
                · cases read
                  rfl
                · cases read
            · cases read
        · cases read

/-! ## Blocks and streams -/

theorem plain?_extend {bits next : Bits} {out result : ByteArray}
    (read : plain? bits out = some (result, next)) (rest : ByteArray) :
    plain? (bits.extend rest) out = some (result, next.extend rest) := by
  unfold plain? at read ⊢
  split at read
  · cases read
  · rename_i header
    rw [Bits.take?_extend header rest]
    dsimp only at read ⊢
    split at read
    · rename_i matching
      rw [if_pos matching]
      split at read
      · cases read
      · rename_i bytes
        cases read
        rw [Bits.take?_extend bytes rest]
    · cases read

theorem block?_extend {kind : Nat} {bits next : Bits} {out result : ByteArray}
    (read : block? kind bits out = some (result, next)) (rest : ByteArray) :
    block? kind (bits.extend rest) out = some (result, next.extend rest) := by
  unfold block? at read ⊢
  by_cases plain : kind = 0
  · rw [if_pos plain] at read ⊢
    exact plain?_extend read rest
  rw [if_neg plain] at read ⊢
  by_cases fixed : kind = 1
  · rw [if_pos fixed] at read ⊢
    exact elements_extend read rest
  rw [if_neg fixed] at read ⊢
  by_cases own : kind = 2
  · rw [if_pos own] at read ⊢
    split at read
    · cases read
    · rename_i codes
      rw [codes?_extend codes rest]
      exact elements_extend read rest
  · rw [if_neg own] at read
    cases read

theorem inflateFrom_block {bits afterMark afterKind next : Bits} {final kind : Nat}
    {out result : ByteArray} (marked : bits.bit? = some (final, afterMark))
    (typed : afterMark.number? 2 = some (kind, afterKind))
    (decoded : block? kind afterKind out = some (result, next)) :
    inflateFrom bits out = if final = 1 then some (result, next) else inflateFrom next result := by
  rw [inflateFrom]
  split
  · simp_all
  · rename_i final' afterMark' marked'
    obtain ⟨rfl, rfl⟩ : final = final' ∧ afterMark = afterMark' := by simp_all
    split
    · simp_all
    · rename_i kind' afterKind' typed'
      obtain ⟨rfl, rfl⟩ : kind = kind' ∧ afterKind = afterKind' := by simp_all
      split
      · simp_all
      · rename_i result' next' decoded'
        obtain ⟨rfl, rfl⟩ : result = result' ∧ next = next' := by simp_all
        rfl

theorem inflateFrom_extend {bits next : Bits} {out result : ByteArray}
    (read : inflateFrom bits out = some (result, next)) (rest : ByteArray) :
    inflateFrom (bits.extend rest) out = some (result, next.extend rest) := by
  fun_induction inflateFrom bits out with
  | case1 => cases read
  | case2 => cases read
  | case3 => cases read
  | case4 bits out afterMark kind afterKind typed block last decoded marked =>
    rw [inflateFrom_block (Bits.bit?_extend marked rest) (Bits.number?_extend typed rest)
      (block?_extend decoded rest), if_pos rfl]
    cases read
    rfl
  | case5 bits out final afterMark marked kind afterKind typed block last decoded more ih =>
    rw [inflateFrom_block (Bits.bit?_extend marked rest) (Bits.number?_extend typed rest)
      (block?_extend decoded rest), if_neg more]
    exact ih read

/-- What stands behind a stream does not change what it decodes to. -/
theorem decode?_append {stream data : ByteArray} (read : decode? stream = some data)
    (rest : ByteArray) : decode? (stream ++ rest) = some data := by
  unfold decode? at read
  split at read
  · rename_i header
    simp only [Bool.and_eq_true, decide_eq_true_eq] at header
    obtain ⟨wide, allowed⟩ := header
    have method : numberAt (stream ++ rest) 0 1 = numberAt stream 0 1 :=
      numberAt_append_left (by omega) rest
    have flags : numberAt (stream ++ rest) 1 1 = numberAt stream 1 1 :=
      numberAt_append_left (by omega) rest
    split at read
    · cases read
    · rename_i out bits inflated
      split at read
      · cases read
      · rename_i checksum last taken
        have whole := inflateFrom_extend inflated rest
        have behind := Bits.take?_extend taken rest
        unfold decode?
        rw [method, flags, ByteArray.size_append]
        have wider : 2 ≤ stream.size + rest.size := by omega
        rw [Bits.extend] at whole
        simp only [wider, allowed, whole, behind]
        exact read
  · cases read

end EvidencePages.Zlib

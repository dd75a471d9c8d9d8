import EvidencePages.Zlib.PrefixCode

/-!
# Deflated data

Blocks follow one another until one is marked as the last. A block holds plain
bytes, or literals and copies in two prefix codes that are fixed or come with
the block. Each function gives the decoded bytes so far and what is left of
the input, or nothing where the input breaks a rule or ends too early.
-/

set_option autoImplicit false

namespace EvidencePages.Zlib

def lengthBases : List (Nat × Nat) := [
  (3, 0), (4, 0), (5, 0), (6, 0), (7, 0), (8, 0), (9, 0), (10, 0), (11, 1), (13, 1),
  (15, 1), (17, 1), (19, 2), (23, 2), (27, 2), (31, 2), (35, 3), (43, 3), (51, 3), (59, 3),
  (67, 4), (83, 4), (99, 4), (115, 4), (131, 5), (163, 5), (195, 5), (227, 5), (258, 0)]

def distanceBases : List (Nat × Nat) := [
  (1, 0), (2, 0), (3, 0), (4, 0), (5, 1), (7, 1), (9, 2), (13, 2), (17, 3), (25, 3),
  (33, 4), (49, 4), (65, 5), (97, 5), (129, 6), (193, 6), (257, 7), (385, 7), (513, 8), (769, 8),
  (1025, 9), (1537, 9), (2049, 10), (3073, 10), (4097, 11), (6145, 11), (8193, 12), (12289, 12),
  (16385, 13), (24577, 13)]

def based? (bases : List (Nat × Nat)) (symbol : Nat) (bits : Bits) : Option (Nat × Bits) :=
  match bases[symbol]? with
  | none => none
  | some (base, extra) =>
    match bits.number? extra with
    | none => none
    | some (n, next) => some (base + n, next)

theorem remaining_based? {bases : List (Nat × Nat)} {symbol n : Nat} {bits next : Bits}
    (read : based? bases symbol bits = some (n, next)) : next.remaining ≤ bits.remaining := by
  unfold based? at read
  split at read
  · cases read
  · split at read
    · cases read
    · rename_i number
      simp only [Option.some.injEq, Prod.mk.injEq] at read
      rw [← read.2]
      exact Bits.remaining_number? number

/-- The byte that stands `distance` before the end. Zeros stand before the first byte. -/
def byteBack (distance : Nat) (out : ByteArray) : UInt8 :=
  if distance ≤ out.size then out[out.size - distance]?.getD 0 else 0

def copyBack (distance : Nat) : Nat → ByteArray → ByteArray
  | 0, out => out
  | length + 1, out => copyBack distance length (out.push (byteBack distance out))

def endOfBlock : Nat := 256

/-! ## Literals and copies -/

inductive Element where
  | literal (byte : UInt8)
  | copy (length distance : Nat)
  | stop
  deriving DecidableEq, Repr

def copy? (distances : PrefixCode) (symbol : Nat) (bits : Bits) : Option (Element × Bits) :=
  match based? lengthBases (symbol - 257) bits with
  | none => none
  | some (length, afterLength) =>
    match distances.decode? afterLength with
    | none => none
    | some (distanceSymbol, afterSymbol) =>
      match based? distanceBases distanceSymbol afterSymbol with
      | none => none
      | some (distance, next) => some (.copy length distance, next)

def element? (literals distances : PrefixCode) (bits : Bits) : Option (Element × Bits) :=
  match literals.decode? bits with
  | none => none
  | some (symbol, next) =>
    if symbol < endOfBlock then some (.literal (UInt8.ofNat symbol), next)
    else if symbol = endOfBlock then some (.stop, next)
    else copy? distances symbol next

theorem remaining_element? {literals distances : PrefixCode} {bits next : Bits} {element : Element}
    (read : element? literals distances bits = some (element, next)) :
    next.remaining < bits.remaining := by
  unfold element? at read
  split at read
  · cases read
  · rename_i symbol middle decoded
    have := PrefixCode.remaining_decode? decoded
    split at read
    · simp only [Option.some.injEq, Prod.mk.injEq] at read
      rw [← read.2]
      exact this
    · split at read
      · simp only [Option.some.injEq, Prod.mk.injEq] at read
        rw [← read.2]
        exact this
      · unfold copy? at read
        split at read
        · cases read
        · rename_i first
          split at read
          · cases read
          · rename_i second
            split at read
            · cases read
            · rename_i third
              simp only [Option.some.injEq, Prod.mk.injEq] at read
              have := remaining_based? first
              have := PrefixCode.remaining_decode? second
              have := remaining_based? third
              rw [← read.2]
              omega

/-- Elements up to the one that ends the block. -/
def elements (literals distances : PrefixCode) (bits : Bits) (out : ByteArray) :
    Option (ByteArray × Bits) :=
  match _read : element? literals distances bits with
  | none => none
  | some (.stop, next) => some (out, next)
  | some (.literal byte, next) => elements literals distances next (out.push byte)
  | some (.copy length distance, next) =>
    elements literals distances next (copyBack distance length out)
termination_by bits.remaining
decreasing_by all_goals exact remaining_element? _read

theorem remaining_elements {literals distances : PrefixCode} {bits next : Bits}
    {out result : ByteArray} (read : elements literals distances bits out = some (result, next)) :
    next.remaining < bits.remaining := by
  fun_induction elements literals distances bits out with
  | case1 => cases read
  | case2 bits out middle decoded =>
    simp only [Option.some.injEq, Prod.mk.injEq] at read
    rw [← read.2]
    exact remaining_element? decoded
  | case3 bits out byte middle decoded ih =>
    exact Nat.lt_trans (ih read) (remaining_element? decoded)
  | case4 bits out length distance middle decoded ih =>
    exact Nat.lt_trans (ih read) (remaining_element? decoded)

/-! ## The codes of a block -/

def fixedLiteralLengths : List Nat :=
  List.replicate 144 8 ++ List.replicate 112 9 ++ List.replicate 24 7 ++ List.replicate 8 8

def fixedDistanceLengths : List Nat := List.replicate 32 5

/-- The order in which the word lengths of the code for word lengths are written. -/
def lengthOrder : List Nat := [16, 17, 18, 0, 8, 7, 9, 6, 10, 5, 11, 4, 12, 3, 13, 2, 14, 1, 15]

def numbers? (width : Nat) : Nat → Bits → Option (List Nat × Bits)
  | 0, bits => some ([], bits)
  | count + 1, bits =>
    match bits.number? width with
    | none => none
    | some (n, next) =>
      match numbers? width count next with
      | none => none
      | some (rest, last) => some (n :: rest, last)

/-- What symbol `symbol` of the code for word lengths stands for after `known`: one length, or a
run of the last one or of zeros. -/
def run? (known : List Nat) (symbol : Nat) (bits : Bits) : Option (List Nat × Bits) :=
  if symbol < 16 then some ([symbol], bits)
  else
    let (value, base, width) :=
      if symbol = 16 then (known.getLast?, 3, 2)
      else if symbol = 17 then (some 0, 3, 3)
      else (some 0, 11, 7)
    match value, bits.number? width with
    | some length, some (n, next) => some (List.replicate (base + n) length, next)
    | _, _ => none

theorem remaining_run? {known run : List Nat} {symbol : Nat} {bits next : Bits}
    (read : run? known symbol bits = some (run, next)) : next.remaining ≤ bits.remaining := by
  unfold run? at read
  split at read
  · simp only [Option.some.injEq, Prod.mk.injEq] at read
    exact read.2 ▸ Nat.le_refl _
  · simp only at read
    split at read
    · rename_i number
      simp only [Option.some.injEq, Prod.mk.injEq] at read
      rw [← read.2]
      exact Bits.remaining_number? number
    · cases read

def wordLengths? (code : PrefixCode) (count : Nat) (known : List Nat) (bits : Bits) :
    Option (List Nat × Bits) :=
  if known.length < count then
    match _decoded : code.decode? bits with
    | none => none
    | some (symbol, next) =>
      match _ran : run? known symbol next with
      | none => none
      | some (run, last) => wordLengths? code count (known ++ run) last
  else if known.length = count then some (known, bits)
  else none
termination_by bits.remaining
decreasing_by
  exact Nat.lt_of_le_of_lt (remaining_run? _ran) (PrefixCode.remaining_decode? _decoded)

def codes? (bits : Bits) : Option (PrefixCode × PrefixCode × Bits) :=
  match bits.number? 5 with
  | none => none
  | some (literalExtra, bits) =>
    match bits.number? 5 with
    | none => none
    | some (distanceExtra, bits) =>
      match bits.number? 4 with
      | none => none
      | some (orderExtra, bits) =>
        let literalCount := literalExtra + 257
        let distanceCount := distanceExtra + 1
        if literalCount ≤ 286 ∧ distanceCount ≤ 30 then
          match numbers? 3 (orderExtra + 4) bits with
          | none => none
          | some (ordered, bits) =>
            let given := lengthOrder.zip ordered
            let lengths := (List.range 19).map fun symbol => (given.lookup symbol).getD 0
            if PrefixCode.isComplete lengths then
              match wordLengths? (.ofLengths lengths) (literalCount + distanceCount) [] bits with
              | none => none
              | some (all, bits) =>
                match PrefixCode.ofLengths? (all.take literalCount),
                    PrefixCode.ofLengths? (all.drop literalCount) with
                | some literals, some distances => some (literals, distances, bits)
                | _, _ => none
            else none
        else none

theorem remaining_wordLengths? {code : PrefixCode} {count : Nat} {known lengths : List Nat}
    {bits next : Bits} (read : wordLengths? code count known bits = some (lengths, next)) :
    next.remaining ≤ bits.remaining := by
  fun_induction wordLengths? code count known bits with
  | case1 => cases read
  | case2 => cases read
  | case3 known bits _ symbol middle decoded run last ran ih =>
    exact Nat.le_trans (ih read) (Nat.le_trans (remaining_run? ran)
      (Nat.le_of_lt (PrefixCode.remaining_decode? decoded)))
  | case4 =>
    simp only [Option.some.injEq, Prod.mk.injEq] at read
    exact read.2 ▸ Nat.le_refl _
  | case5 => cases read

theorem remaining_numbers? {width count : Nat} {ns : List Nat} {bits next : Bits}
    (read : numbers? width count bits = some (ns, next)) : next.remaining ≤ bits.remaining := by
  induction count generalizing bits ns with
  | zero =>
    simp only [numbers?, Option.some.injEq, Prod.mk.injEq] at read
    exact read.2 ▸ Nat.le_refl _
  | succ count ih =>
    unfold numbers? at read
    split at read
    · cases read
    · rename_i n middle first
      split at read
      · cases read
      · rename_i rest last others
        simp only [Option.some.injEq, Prod.mk.injEq] at read
        obtain ⟨-, rfl⟩ := read
        have := Bits.remaining_number? first
        have := ih others
        omega

theorem remaining_codes? {literals distances : PrefixCode} {bits next : Bits}
    (read : codes? bits = some (literals, distances, next)) :
    next.remaining ≤ bits.remaining := by
  unfold codes? at read
  split at read
  · cases read
  · rename_i h1
    split at read
    · cases read
    · rename_i h2
      split at read
      · cases read
      · rename_i h3
        simp only at read
        split at read
        · split at read
          · cases read
          · rename_i h4
            split at read
            · split at read
              · cases read
              · rename_i h5
                split at read
                · simp only [Option.some.injEq, Prod.mk.injEq] at read
                  have := Bits.remaining_number? h1
                  have := Bits.remaining_number? h2
                  have := Bits.remaining_number? h3
                  have := remaining_numbers? h4
                  have := remaining_wordLengths? h5
                  rw [← read.2.2]
                  omega
                · cases read
            · cases read
        · cases read

/-! ## Blocks -/

/-- A block of plain bytes: its length, the length's complement, and the bytes. -/
def plain? (bits : Bits) (out : ByteArray) : Option (ByteArray × Bits) :=
  match bits.take? 4 with
  | none => none
  | some (header, bits) =>
    let length := numberAt header 0 2
    if length + numberAt header 2 2 = 65535 then
      match bits.take? length with
      | none => none
      | some (bytes, bits) => some (out ++ bytes, bits)
    else none

def block? (kind : Nat) (bits : Bits) (out : ByteArray) : Option (ByteArray × Bits) :=
  if kind = 0 then plain? bits out
  else if kind = 1 then
    elements (.ofLengths fixedLiteralLengths) (.ofLengths fixedDistanceLengths) bits out
  else if kind = 2 then
    match codes? bits with
    | none => none
    | some (literals, distances, bits) => elements literals distances bits out
  else none

theorem remaining_block? {kind : Nat} {bits next : Bits} {out result : ByteArray}
    (read : block? kind bits out = some (result, next)) : next.remaining ≤ bits.remaining := by
  unfold block? at read
  split at read
  · unfold plain? at read
    split at read
    · cases read
    · rename_i h1
      simp only at read
      split at read
      · split at read
        · cases read
        · rename_i h2
          simp only [Option.some.injEq, Prod.mk.injEq] at read
          have := Bits.remaining_take? h1
          have := Bits.remaining_take? h2
          rw [← read.2]
          omega
      · cases read
  · split at read
    · exact Nat.le_of_lt (remaining_elements read)
    · split at read
      · split at read
        · cases read
        · rename_i h1
          exact Nat.le_trans (Nat.le_of_lt (remaining_elements read)) (remaining_codes? h1)
      · cases read

def inflateFrom (bits : Bits) (out : ByteArray) : Option (ByteArray × Bits) :=
  match _marked : bits.bit? with
  | none => none
  | some (final, afterMark) =>
    match _typed : afterMark.number? 2 with
    | none => none
    | some (kind, afterKind) =>
      match _decoded : block? kind afterKind out with
      | none => none
      | some (out, next) => if final = 1 then some (out, next) else inflateFrom next out
termination_by bits.remaining
decreasing_by
  have := Bits.remaining_bit? _marked
  have := Bits.remaining_number? _typed
  have := remaining_block? _decoded
  omega

end EvidencePages.Zlib

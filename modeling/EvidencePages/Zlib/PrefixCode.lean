import EvidencePages.Zlib.Bits

/-!
# Canonical prefix codes

A code is given by the length of each symbol's code word, zero for a symbol
that has none. Words of one length are consecutive numbers in the order of
their symbols, and shorter words come before longer ones.
-/

set_option autoImplicit false

namespace EvidencePages.Zlib

def maxWordLength : Nat := 15

/-- How many words there are of length 1, 2, …, and the symbols in the order of their words. -/
structure PrefixCode where
  counts : List Nat
  symbols : Array Nat

namespace PrefixCode

def wordLengths : List Nat := (List.range maxWordLength).map (· + 1)

def ofLengths (lengths : List Nat) : PrefixCode where
  counts := wordLengths.map fun length => lengths.count length
  symbols := (wordLengths.flatMap fun length =>
    (lengths.zipIdx.filter fun entry => entry.1 = length).map (·.2)).toArray

/-- The share of all 15-bit strings that start with a word, in units of one string. -/
def weight : List Nat → Nat
  | [] => 0
  | length :: rest =>
    (if length = 0 then 0 else 1 <<< (maxWordLength - length)) + weight rest

/-- Every long enough bit string starts with exactly one word. -/
def isComplete (lengths : List Nat) : Bool := weight lengths = 1 <<< maxWordLength

def usedLengths (lengths : List Nat) : List Nat := lengths.filter (· ≠ 0)

/-- No word at all, or a single one of a single bit. -/
def isSparse (lengths : List Nat) : Bool := usedLengths lengths = [] || usedLengths lengths = [1]

/-- Only a sparse code is allowed to leave strings without a word. -/
def ofLengths? (lengths : List Nat) : Option PrefixCode :=
  if isComplete lengths || isSparse lengths then some (ofLengths lengths) else none

def descend (symbols : Array Nat) : List Nat → Nat → Nat → Nat → Bits → Option (Nat × Bits)
  | [], _, _, _, _ => none
  | count :: rest, first, index, word, bits =>
    match bits.bit? with
    | none => none
    | some (bit, next) =>
      let word := word + bit
      if word < first + count then
        match symbols[index + (word - first)]? with
        | none => none
        | some symbol => some (symbol, next)
      else descend symbols rest (2 * (first + count)) (index + count) (2 * word) next

def decode? (code : PrefixCode) (bits : Bits) : Option (Nat × Bits) :=
  descend code.symbols code.counts 0 0 0 bits

theorem remaining_descend {symbols : Array Nat} {counts : List Nat} {first index word : Nat}
    {bits next : Bits} {symbol : Nat}
    (read : descend symbols counts first index word bits = some (symbol, next)) :
    next.remaining < bits.remaining := by
  induction counts generalizing first index word bits with
  | nil => simp [descend] at read
  | cons count rest ih =>
    unfold descend at read
    split at read
    · cases read
    · rename_i bit middle one
      have shorter := Bits.remaining_bit? one
      simp only at read
      split at read
      · split at read
        · cases read
        · simp only [Option.some.injEq, Prod.mk.injEq] at read
          rw [← read.2]
          exact shorter
      · exact Nat.lt_trans (ih read) shorter

theorem remaining_decode? {code : PrefixCode} {bits next : Bits} {symbol : Nat}
    (read : code.decode? bits = some (symbol, next)) : next.remaining < bits.remaining :=
  remaining_descend read

end PrefixCode

end EvidencePages.Zlib

import EvidencePages.Bytes

/-!
# Bits of a byte string

Bits are taken from each byte lowest first, and a number's lowest bit comes
first too. Every read says what is left, and what is left only shrinks, which
is what ends the loops of a decoder.
-/

set_option autoImplicit false

namespace EvidencePages.Zlib

structure Bits where
  bytes : ByteArray
  position : Nat

namespace Bits

def ofBytes (bytes : ByteArray) : Bits := ⟨bytes, 0⟩

def remaining (bits : Bits) : Nat := 8 * bits.bytes.size - bits.position

def bit? (bits : Bits) : Option (Nat × Bits) :=
  match bits.bytes[bits.position / 8]? with
  | none => none
  | some byte =>
    some ((byte.toNat >>> (bits.position % 8)) % 2, { bits with position := bits.position + 1 })

def number? : Nat → Bits → Option (Nat × Bits)
  | 0, bits => some (0, bits)
  | width + 1, bits =>
    match bits.bit? with
    | none => none
    | some (low, next) =>
      match number? width next with
      | none => none
      | some (high, last) => some (low + 2 * high, last)

def byteOffset (bits : Bits) : Nat := (bits.position + 7) / 8

def take? (bits : Bits) (length : Nat) : Option (ByteArray × Bits) :=
  let offset := bits.byteOffset
  if offset + length ≤ bits.bytes.size then
    some (slice bits.bytes offset length, { bits with position := 8 * (offset + length) })
  else none

theorem remaining_bit? {bits next : Bits} {b : Nat} (read : bits.bit? = some (b, next)) :
    next.remaining < bits.remaining := by
  unfold bit? at read
  split at read
  · cases read
  · rename_i byte found
    obtain ⟨bound, -⟩ := getElem?_eq_some_iff.mp found
    simp only [Option.some.injEq, Prod.mk.injEq] at read
    obtain ⟨-, rfl⟩ := read
    simp only [remaining]
    omega

theorem remaining_number? {width : Nat} {bits next : Bits} {n : Nat}
    (read : bits.number? width = some (n, next)) : next.remaining ≤ bits.remaining := by
  induction width generalizing bits n with
  | zero =>
    simp only [number?, Option.some.injEq, Prod.mk.injEq] at read
    exact read.2 ▸ Nat.le_refl _
  | succ width ih =>
    unfold number? at read
    split at read
    · cases read
    · rename_i low middle first
      split at read
      · cases read
      · rename_i high last rest
        simp only [Option.some.injEq, Prod.mk.injEq] at read
        obtain ⟨-, rfl⟩ := read
        have := remaining_bit? first
        have := ih rest
        omega

theorem remaining_take? {bits next : Bits} {length : Nat} {taken : ByteArray}
    (read : bits.take? length = some (taken, next)) : next.remaining ≤ bits.remaining := by
  unfold take? at read
  simp only at read
  split at read
  · simp only [Option.some.injEq, Prod.mk.injEq] at read
    obtain ⟨-, rfl⟩ := read
    simp only [remaining, byteOffset]
    omega
  · cases read

end Bits

end EvidencePages.Zlib

import EvidencePages.Zlib.Inflate

/-!
# Zlib streams

Two header bytes, deflated data, and the Adler-32 checksum of what the data
decode to. Bytes after the checksum are not looked at.
-/

set_option autoImplicit false

namespace EvidencePages.Zlib

def adlerModulus : Nat := 65521

def adlerStep (sums : Nat × Nat) (byte : UInt8) : Nat × Nat :=
  let low := (sums.1 + byte.toNat) % adlerModulus
  (low, (sums.2 + low) % adlerModulus)

def adler32 (bytes : ByteArray) : Nat :=
  let sums := bytes.data.foldl adlerStep (1, 0)
  sums.2 * 65536 + sums.1

def bigEndian (bytes : ByteArray) : Nat := littleEndian bytes.data.toList.reverse

/-- Deflate with a window of at most 32 KiB and no preset dictionary, and a header that is a
multiple of 31. -/
def isHeader (method flags : Nat) : Bool :=
  (method * 256 + flags) % 31 = 0 && flags / 32 % 2 = 0 && method % 16 = 8 && method / 16 ≤ 7

/-- What a complete stream at the start of `bytes` decodes to, if its checksum agrees. -/
def decode? (bytes : ByteArray) : Option ByteArray :=
  if 2 ≤ bytes.size && isHeader (numberAt bytes 0 1) (numberAt bytes 1 1) then
    match inflateFrom ⟨bytes, 16⟩ .empty with
    | none => none
    | some (out, bits) =>
      match bits.take? 4 with
      | none => none
      | some (checksum, _) => if bigEndian checksum = adler32 out then some out else none
  else none

end EvidencePages.Zlib

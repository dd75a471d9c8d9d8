import EvidencePages.Bytes

/-!
# Text in bytes

Bytes are read as UTF-8 or as little-endian UTF-16. What is not valid becomes
a replacement character: one for each longest run of bytes that starts a
character without finishing it, one for each other stray byte, and one for
each surrogate that stands alone.
-/

set_option autoImplicit false

namespace EvidencePages.Text

def replacement : Char := '\uFFFD'

/-! ## UTF-8 -/

/-- How many bytes follow a first byte, and the range that the first of them must lie in. -/
def continuation (first : UInt8) : Nat × UInt8 × UInt8 :=
  if first < 0xC2 then (0, 0, 0)
  else if first < 0xE0 then (1, 0x80, 0xBF)
  else if first = 0xE0 then (2, 0xA0, 0xBF)
  else if first = 0xED then (2, 0x80, 0x9F)
  else if first < 0xF0 then (2, 0x80, 0xBF)
  else if first = 0xF0 then (3, 0x90, 0xBF)
  else if first < 0xF4 then (3, 0x80, 0xBF)
  else if first = 0xF4 then (3, 0x80, 0x8F)
  else (0, 0, 0)

/-- The length of the invalid run at `offset`, where no character can be decoded. -/
def invalidRun (bytes : ByteArray) (offset : Nat) : Nat :=
  match bytes[offset]? with
  | none => 1
  | some first =>
    let (count, low, high) := continuation first
    match bytes[offset + 1]? with
    | none => 1
    | some second =>
      if 2 ≤ count && low ≤ second && second ≤ high then
        match bytes[offset + 2]? with
        | none => 2
        | some third => if count = 3 && 0x80 ≤ third && third ≤ 0xBF then 3 else 2
      else 1

theorem invalidRun_pos (bytes : ByteArray) (offset : Nat) : 0 < invalidRun bytes offset := by
  unfold invalidRun
  split
  · exact Nat.one_pos
  · simp only
    split
    · exact Nat.one_pos
    · split
      · split
        · exact Nat.two_pos
        · split <;> decide
      · exact Nat.one_pos

def utf8From (bytes : ByteArray) (offset : Nat) : List Char :=
  if offset < bytes.size then
    match bytes.utf8DecodeChar? offset with
    | some c => c :: utf8From bytes (offset + c.utf8Size)
    | none => replacement :: utf8From bytes (offset + invalidRun bytes offset)
  else []
termination_by bytes.size - offset
decreasing_by
  · have := c.utf8Size_pos
    omega
  · have := invalidRun_pos bytes offset
    omega

def utf8 (bytes : ByteArray) : List Char := utf8From bytes 0

/-! ## UTF-16 -/

def units : List UInt8 → List Nat
  | low :: high :: rest => (low.toNat + 256 * high.toNat) :: units rest
  | _ => []

def isHighSurrogate (unit : Nat) : Bool := 0xD800 ≤ unit && unit < 0xDC00

def isLowSurrogate (unit : Nat) : Bool := 0xDC00 ≤ unit && unit < 0xE000

def single (unit : Nat) : Char :=
  if isHighSurrogate unit || isLowSurrogate unit then replacement else Char.ofNat unit

def pair (high low : Nat) : Char := Char.ofNat (0x10000 + (high - 0xD800) * 0x400 + (low - 0xDC00))

def ofUnits : List Nat → List Char
  | [] => []
  | [unit] => [single unit]
  | unit :: next :: rest =>
    if isHighSurrogate unit && isLowSurrogate next then pair unit next :: ofUnits rest
    else single unit :: ofUnits (next :: rest)

/-- The characters of codes among which surrogates stand in pairs only. -/
def ofCodes? : List Nat → Option (List Char)
  | [] => some []
  | [code] => if isHighSurrogate code || isLowSurrogate code then none else some [Char.ofNat code]
  | code :: next :: rest =>
    if isHighSurrogate code && isLowSurrogate next then (ofCodes? rest).map (pair code next :: ·)
    else if isHighSurrogate code || isLowSurrogate code then none
    else (ofCodes? (next :: rest)).map (Char.ofNat code :: ·)

/-- A last odd byte is dropped. -/
def utf16 (bytes : ByteArray) : List Char := ofUnits (units bytes.data.toList)

end EvidencePages.Text

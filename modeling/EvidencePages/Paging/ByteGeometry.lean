import EvidencePages.Outcome
import EvidencePages.Paging.Cursor
import EvidencePages.Paging.Page

/-!
# Paging over bytes

An address space of `size` bytes is cut into blocks of `pageSize` bytes. The
page of a block holds the block and, as far as there is more, `margin` bytes
after it.
-/

set_option autoImplicit false

namespace EvidencePages

structure ByteGeometry where
  size : Nat
  pageSize : Nat
  margin : Nat
  deriving DecidableEq, Repr

namespace ByteGeometry

def first (geometry : ByteGeometry) : Cursor := .atByte 0 (geometry.size = 0)

def last (geometry : ByteGeometry) : Cursor := .atByte geometry.size true

def advance (geometry : ByteGeometry) (cursor : Cursor) : Cursor :=
  cursor.stepBytes geometry.pageSize geometry.size

/-- The size in blocks, rounded up; there is no such number for a page size of zero. -/
def blockCount? (geometry : ByteGeometry) : Option Nat :=
  if geometry.pageSize = 0 then none
  else some ((geometry.size + geometry.pageSize - 1) / geometry.pageSize)

/-- The cursor at a block, or at the last one if that comes first, with the block used. -/
def seek? (geometry : ByteGeometry) (block : Nat) : Option (Cursor × Nat) :=
  match geometry.blockCount? with
  | none => none
  | some count =>
    let block := min block (count - 1)
    let offset := min (block * geometry.pageSize) geometry.size
    some (.atByte offset (geometry.size ≤ offset), block)

def offsetOf (geometry : ByteGeometry) (cursor : Cursor) : Nat :=
  min (cursor.byteOffset?.getD geometry.size) geometry.size

def positionOf (geometry : ByteGeometry) (cursor : Cursor) : Position :=
  .atOffset (geometry.offsetOf cursor)

def describe (geometry : ByteGeometry) (cursor : Cursor) : String :=
  "Offset " ++ toString (geometry.offsetOf cursor / 1000000) ++ "MB"

def windowAt (geometry : ByteGeometry) (offset : Nat) : Nat :=
  min (geometry.pageSize + geometry.margin) (geometry.size - offset)

def pageOf (geometry : ByteGeometry) (offset : Nat) (bytes : ByteArray) :
    Except ImageError (Option Page) :=
  let window := geometry.windowAt offset
  if bytes.size = 0 then .ok none
  else if short : bytes.size < window then .error (.read offset (.short window bytes.size))
  else
    .ok (some {
      position := .atOffset offset
      bytes := bytes
      activeLength := min window geometry.pageSize
      mapped := false
      activeLength_le := Nat.le_trans (Nat.min_le_left _ _) (Nat.le_of_not_lt short) })

def readPage {σ : Type} (geometry : ByteGeometry) (pread : σ → Nat → Nat → Outcome σ ByteArray)
    (state : σ) (cursor : Cursor) : Outcome σ (Option Page) :=
  let offset := geometry.offsetOf cursor
  let window := geometry.windowAt offset
  if window = 0 then { result := .ok none, state }
  else if bufferLimit ≤ window then { result := .error (.bufferTooLarge window), state }
  else
    let read := pread state offset window
    match read.result with
    | .error cause => { read with result := .error cause }
    | .ok bytes => { read with result := geometry.pageOf offset bytes }

end ByteGeometry

def fraction (part whole : Nat) : Float :=
  if whole = 0 then 1 else (UInt64.ofNat part).toFloat / (UInt64.ofNat whole).toFloat

end EvidencePages

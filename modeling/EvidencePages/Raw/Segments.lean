import EvidencePages.Path

/-!
# Segments of a split image

The parts of a split image lie end to end in one address space. An image whose
parts come to 2⁶⁴ bytes or more is never open, so every place and every length
in an open one is a number of 64 bits.
-/

set_option autoImplicit false

namespace EvidencePages

structure Segment where
  path : Path
  start : Nat
  length : Nat
  deriving DecidableEq, Repr

namespace Segment

def stop (segment : Segment) : Nat := segment.start + segment.length

def contains (segment : Segment) (offset : Nat) : Bool :=
  segment.start ≤ offset && offset < segment.stop

def layout : Nat → List (Path × Nat) → List Segment
  | _, [] => []
  | start, (path, length) :: rest => ⟨path, start, length⟩ :: layout (start + length) rest

def total (segments : List Segment) : Nat :=
  match segments.getLast? with
  | none => 0
  | some segment => segment.stop

/-- The first segment that ends after `offset`, if it also starts before it, with its index. -/
def owner? (segments : List Segment) (offset : Nat) : Option (Nat × Segment) :=
  match segments.findIdx? fun segment => offset < segment.stop with
  | none => none
  | some index =>
    match segments[index]? with
    | none => none
    | some segment => if segment.contains offset then some (index, segment) else none

end Segment

end EvidencePages

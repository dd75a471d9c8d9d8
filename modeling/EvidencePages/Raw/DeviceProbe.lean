import EvidencePages.ImageError
import EvidencePages.Store.Reading

/-!
# The size of a device

A device may not tell its size. It is then searched with reads of one byte:
first the least power of two that cannot be read, then, bit by bit below it,
the largest offset that can. The offsets tried are kept, in order.
-/

set_option autoImplicit false

namespace EvidencePages.DeviceProbe

def exponentLimit : Nat := 60

def leastUnreadable (readable : Nat → Bool) : Nat → Nat → Option Nat × List Nat
  | 0, _ => (none, [])
  | count + 1, exponent =>
    if readable (1 <<< exponent) then
      let (found, tried) := leastUnreadable readable count (exponent + 1)
      (found, 1 <<< exponent :: tried)
    else (some exponent, [1 <<< exponent])

/-- Sets each of the lower `bits` bits that leaves the offset readable and clears the others. -/
def settle (readable : Nat → Bool) : Nat → Nat → Nat × List Nat
  | 0, offset => (offset, [])
  | bit + 1, offset =>
    let candidate := offset ||| 1 <<< bit
    let (result, tried) :=
      settle readable bit (if readable candidate then candidate else candidate ^^^ 1 <<< bit)
    (result, candidate :: tried)

def search (readable : Nat → Bool) : Option Nat × List Nat :=
  match leastUnreadable readable exponentLimit 0 with
  | (none, tried) => (none, tried)
  | (some exponent, tried) =>
    let (offset, more) := settle readable (exponent + 1) (1 <<< exponent)
    (some (if offset = 0 then 0 else offset + 1), tried ++ more)

def size (reported : Option Nat) (readable : Nat → Bool) : Option Nat × List Nat :=
  match reported with
  | some size => (some size, [])
  | none => search readable

def isReadable (store : FileStore) (handle : Handle) (offset : Nat) : Bool :=
  match store.readAt handle offset 1 with
  | .ok bytes => bytes.size = 1
  | .error _ => false

/-- The size of an open file or device; zero is not taken for an answer. -/
def fileSize (store : FileStore) (handle : Handle) : Except ImageError Nat :=
  let length := store.length handle
  let reported := if length = 0 then none else some length
  match (size reported (isReadable store handle)).1 with
  | none => .error .probeExhausted
  | some size => .ok size

end EvidencePages.DeviceProbe

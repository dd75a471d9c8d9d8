/-!
# Cursors

A cursor is a plain value that says how far a walk has come: at a byte or at a
file, and whether that is the end. Only the image that it is used with gives
it a meaning, and a cursor of the other kind counts as being at the end.
-/

set_option autoImplicit false

namespace EvidencePages

inductive Address where
  | byte (offset : Nat)
  | file (index : Nat)
  deriving DecidableEq, Repr

structure Cursor where
  address : Address
  atEnd : Bool
  deriving DecidableEq, Repr

namespace Cursor

def atByte (offset : Nat) (atEnd : Bool) : Cursor := ⟨.byte offset, atEnd⟩

def atFile (index : Nat) (atEnd : Bool) : Cursor := ⟨.file index, atEnd⟩

def byteOffset? (cursor : Cursor) : Option Nat :=
  match cursor.address with
  | .byte offset => some offset
  | .file _ => none

def fileIndex? (cursor : Cursor) : Option Nat :=
  match cursor.address with
  | .file index => some index
  | .byte _ => none

def stepBytes (cursor : Cursor) (step limit : Nat) : Cursor :=
  let next := min (cursor.byteOffset?.getD limit + step) limit
  atByte next (limit ≤ next)

def stepFile (cursor : Cursor) (count : Nat) : Cursor :=
  let next := min (cursor.fileIndex?.getD count + 1) count
  atFile next (count ≤ next)

end Cursor

end EvidencePages

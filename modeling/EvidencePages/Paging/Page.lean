import EvidencePages.Bytes
import EvidencePages.Path

/-!
# Pages

A page is a window of image bytes with the place it was taken from. Its first
`activeLength` bytes are its own; the rest is margin, which the next page
holds again.
-/

set_option autoImplicit false

namespace EvidencePages

structure Position where
  path : Option Path
  offset : Nat
  deriving DecidableEq, Repr

namespace Position

def atOffset (offset : Nat) : Position := ⟨none, offset⟩

def inFile (path : Path) : Position := ⟨some path, 0⟩

def text (position : Position) : String :=
  match position.path with
  | some path => path.text
  | none => toString position.offset

end Position

structure Page where
  position : Position
  bytes : ByteArray
  activeLength : Nat
  /-- Backed by a mapped file. -/
  mapped : Bool
  activeLength_le : activeLength ≤ bytes.size

namespace Page

def active (page : Page) : ByteArray := page.bytes.extract 0 page.activeLength

def margin (page : Page) : ByteArray := page.bytes.extract page.activeLength page.bytes.size

theorem active_append_margin (page : Page) : page.active ++ page.margin = page.bytes := by
  have := page.activeLength_le
  rw [active, margin, ByteArray.extract_append_extract]
  simp [Nat.max_eq_right this]

/-- The whole of a file; there is no margin. -/
def ofFile (path : Path) (bytes : ByteArray) : Page where
  position := .inFile path
  bytes := bytes
  activeLength := bytes.size
  mapped := bytes.size ≠ 0
  activeLength_le := Nat.le_refl _

end Page

end EvidencePages

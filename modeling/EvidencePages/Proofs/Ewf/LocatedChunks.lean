import EvidencePages.Proofs.Ewf.Entries
import EvidencePages.Proofs.Ewf.OpenedSets

/-!
# Where the chunks of table entries are looked for

An entry counts from the base of its table, and the place of its chunk is the
sum of both. A set opens only if all of these sums are numbers. A chunk is then
looked for there and nowhere else, and a place outside of the segment is
refused.
-/

set_option autoImplicit false

namespace EvidencePages.Ewf

/-! ## Entries -/

structure TableEntry where
  segment : Nat
  base : UInt64
  word : UInt32
  deriving DecidableEq

namespace TableEntry

/-- The base and the entry without its top bit, as a sum that does not wrap. -/
def place (entry : TableEntry) : Nat := entry.base.toNat + entry.word.toNat % 1 <<< 31

def location (entry : TableEntry) : ChunkLocation :=
  Table.entryAt entry.segment entry.base entry.word

end TableEntry

def ChunkLocation.unbounded (location : ChunkLocation) : ChunkLocation :=
  { location with stored := none }

namespace Reader

/-! ## Chunks that are decoded -/

namespace MadeFrom

variable {store : FileStore} {paths : List Path} {files : List Visited} {opened : Reader}
  (made : MadeFrom store paths files opened)

include made

end MadeFrom

end Reader

end EvidencePages.Ewf

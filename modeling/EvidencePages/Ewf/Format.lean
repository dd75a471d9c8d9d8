import EvidencePages.Bytes

/-!
# Layout of evidence files

A segment file starts with a signature and a segment number, followed by a
chain of sections. Each section starts with a descriptor that names its kind,
its size, and where the next one stands. All numbers are little-endian. Their
sums and products have to be numbers of 64 bits again: where one is too large,
nothing comes of the file at all.
-/

set_option autoImplicit false

namespace EvidencePages.Ewf

def ascii (text : String) : List UInt8 := text.toList.map fun c => UInt8.ofNat c.toNat

/-! ## The file header -/

def fileHeaderSize : Nat := 13

def signature : List UInt8 := [0x45, 0x56, 0x46, 0x09, 0x0D, 0x0A, 0xFF, 0x00]

def secondVersionSignature : List UInt8 := [0x45, 0x56, 0x46, 0x32, 0x0D, 0x0A, 0x81, 0x00]

def logicalSignature : List UInt8 := [0x4C, 0x56, 0x46, 0x09, 0x0D, 0x0A, 0xFF, 0x00]

/-! ## Sections -/

inductive SectionKind where
  | header (wide : Bool)
  | volume
  | sectors
  | table
  | last
  | other
  deriving DecidableEq, Repr

def SectionKind.ofName (name : List UInt8) : SectionKind :=
  if name = ascii "header" then .header false
  else if name = ascii "header2" then .header true
  else if name = ascii "volume" ∨ name = ascii "disk" then .volume
  else if name = ascii "sectors" then .sectors
  else if name = ascii "table" then .table
  else if name = ascii "next" ∨ name = ascii "done" then .last
  else .other

structure Descriptor where
  kind : SectionKind
  offset : UInt64
  next : UInt64
  /-- With the descriptor itself. -/
  size : UInt64
  deriving DecidableEq, Repr

namespace Descriptor

def length : Nat := 76

def parse (raw : ByteArray) (offset : UInt64) : Descriptor where
  kind := .ofName ((slice raw 0 16).data.toList.takeWhile (· ≠ 0))
  offset := offset
  next := u64At raw 16
  size := u64At raw 24

def dataOffset (descriptor : Descriptor) : UInt64 := descriptor.offset + UInt64.ofNat length

def dataSize (descriptor : Descriptor) : Nat := descriptor.size.toNat - length

def overflows (descriptor : Descriptor) : Bool :=
  UInt64.size ≤ descriptor.offset.toNat + descriptor.size.toNat

def stop (descriptor : Descriptor) : UInt64 := descriptor.offset + descriptor.size

end Descriptor

/-! ## The volume -/

structure Volume where
  chunkCount : UInt32
  sectorsPerChunk : UInt32
  bytesPerSector : UInt32
  sectorCount : UInt64
  deriving DecidableEq, Repr

namespace Volume

def length : Nat := 24

def parse (data : ByteArray) : Volume where
  chunkCount := u32At data 4
  sectorsPerChunk := u32At data 8
  bytesPerSector := u32At data 12
  sectorCount := u64At data 16

def chunkSize (volume : Volume) : UInt64 :=
  volume.sectorsPerChunk.toUInt64 * volume.bytesPerSector.toUInt64

def mediaSize (volume : Volume) : Nat := volume.sectorCount.toNat * volume.bytesPerSector.toNat

def chunkLength (volume : Volume) (index : Nat) : Nat :=
  min volume.chunkSize.toNat (volume.mediaSize - index * volume.chunkSize.toNat)

end Volume

/-! ## Chunk tables -/

/-- Where a chunk is stored. The length is known when something stored after it bounds it. -/
structure ChunkLocation where
  segment : Nat
  offset : UInt64
  compressed : Bool
  stored : Option UInt64
  deriving DecidableEq, Repr

namespace Table

def headerLength : Nat := 24

def entryLength : Nat := 4

def compressedBit : UInt32 := 0x80000000

/-- How far behind the base of its table the chunk of an entry is. -/
def distance (entry : UInt32) : UInt64 := (entry &&& (compressedBit - 1)).toUInt64

def overflows (base : UInt64) (entry : UInt32) : Bool :=
  UInt64.size ≤ base.toNat + (distance entry).toNat

def entryAt (segment : Nat) (base : UInt64) (entry : UInt32) : ChunkLocation where
  segment := segment
  offset := base + distance entry
  compressed := entry &&& compressedBit ≠ 0
  stored := none

def entries (raw : ByteArray) : List UInt32 :=
  (List.range (raw.size / entryLength)).map fun index => u32At raw (entryLength * index)

def extent (offset : UInt64) (bound : Option UInt64) : Option UInt64 :=
  match bound with
  | none => none
  | some stop => if offset < stop then some (stop - offset) else none

/-- A chunk reaches to the next one, and the last to the end of the sectors. -/
def withExtents (sectorsEnd : Option UInt64) : List ChunkLocation → List ChunkLocation
  | [] => []
  | [location] => [{ location with stored := extent location.offset sectorsEnd }]
  | location :: next :: rest =>
    { location with stored := extent location.offset (some next.offset) }
      :: withExtents sectorsEnd (next :: rest)

def locations (segment : Nat) (base : UInt64) (sectorsEnd : Option UInt64) (raw : ByteArray) :
    List ChunkLocation :=
  withExtents sectorsEnd ((entries raw).map (entryAt segment base))

end Table

end EvidencePages.Ewf

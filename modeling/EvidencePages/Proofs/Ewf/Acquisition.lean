import EvidencePages.Ewf.Format
import EvidencePages.Proofs.Bytes

/-!
# Acquired media as segment files

Media are cut into chunks and the chunks are shared out among segment files.
A segment holds its chunks one after another, every second one as it is and
the others compressed, and behind them a table of where each one starts. The
first segment tells the geometry too.
-/

set_option autoImplicit false

namespace EvidencePages.Ewf

/-! ## Chains of sections -/

structure Content where
  name : String
  data : ByteArray

namespace Content

def paddedName (content : Content) : List UInt8 :=
  (ascii content.name ++ List.replicate 16 0).take 16

def size (content : Content) : Nat := Descriptor.length + content.data.size

def descriptor (content : Content) (next : Nat) : ByteArray :=
  ofBytes content.paddedName ++ (ofBytes (littleEndianBytes 8 next) ++
    (ofBytes (littleEndianBytes 8 content.size) ++ zeros 44))

def totalSize (contents : List Content) : Nat := totalOf (contents.map size)

/-- The sections from `offset` on. Each one tells where the next one stands, and the last one
where it stands itself. -/
def laidOut : Nat → List Content → ByteArray
  | _, [] => .empty
  | offset, content :: rest =>
    content.descriptor (if rest.isEmpty then offset else offset + content.size) ++
      (content.data ++ laidOut (offset + content.size) rest)

end Content

/-! ## Segment files -/

def sectorSize : Nat := 512

/-- Media of whole sectors, how they are cut, what is known of the case, and what compresses. -/
structure Acquisition where
  media : ByteArray
  sectorsPerChunk : UInt32
  chunksPerSegment : Nat
  fields : List (String × String)
  deflate : ByteArray → ByteArray
  whole : sectorSize ∣ media.size
  buffered : media.size < bufferLimit
  sectors_pos : 0 < sectorsPerChunk.toNat
  chunks_pos : 0 < chunksPerSegment

namespace Acquisition

variable (a : Acquisition)

def chunkSize : Nat := sectorSize * a.sectorsPerChunk.toNat

def chunkCount : Nat := pieceCount a.media.size a.chunkSize

def chunk (index : Nat) : ByteArray := slice a.media (index * a.chunkSize) a.chunkSize

/-- Media without a chunk still take one segment. -/
def segmentCount : Nat := max 1 (pieceCount a.chunkCount a.chunksPerSegment)

def firstChunk (segment : Nat) : Nat := segment * a.chunksPerSegment

def held (segment : Nat) : Nat := min a.chunksPerSegment (a.chunkCount - a.firstChunk segment)

def isCompressed (index : Nat) : Bool := index % 2 = 0

/-- A chunk as it is stored; four bytes for a checksum follow one that is not compressed. -/
def stored (index : Nat) : ByteArray :=
  if isCompressed index then a.deflate (a.chunk index) else a.chunk index ++ zeros 4

def storedRun (first count : Nat) : ByteArray :=
  joined ((List.range' first count).map a.stored)

def headerText : ByteArray :=
  ("1\nmain\n" ++ "\t".intercalate (a.fields.map (·.1)) ++ "\n" ++
    "\t".intercalate (a.fields.map (·.2)) ++ "\n\n").toUTF8

def volumeData : ByteArray :=
  ofBytes [1, 0, 0, 0] ++ (ofBytes (littleEndianBytes 4 a.chunkCount) ++
    (ofBytes (littleEndianBytes 4 a.sectorsPerChunk.toNat) ++
      (ofBytes (littleEndianBytes 4 sectorSize) ++
        (ofBytes (littleEndianBytes 8 (a.media.size / sectorSize)) ++ zeros 70))))

/-- What the first segment tells before its chunks. -/
def leading (segment : Nat) : List Content :=
  if segment = 0 then [⟨"header", a.deflate a.headerText⟩, ⟨"volume", a.volumeData⟩] else []

def sectors (segment : Nat) : Content :=
  ⟨"sectors", a.storedRun (a.firstChunk segment) (a.held segment)⟩

def sectorsOffset (segment : Nat) : Nat :=
  fileHeaderSize + Content.totalSize (a.leading segment)

def start (segment place : Nat) : Nat :=
  a.sectorsOffset segment + Descriptor.length +
    (a.storedRun (a.firstChunk segment) place).size

def entry (segment place : Nat) : UInt32 :=
  UInt32.ofNat (a.start segment place) |||
    (if isCompressed (a.firstChunk segment + place) then Table.compressedBit else 0)

def entryBytes (segment count : Nat) : ByteArray :=
  joined ((List.range count).map fun place =>
    ofBytes (littleEndianBytes 4 (a.entry segment place).toNat))

def table (segment : Nat) : Content :=
  ⟨"table", ofBytes (littleEndianBytes 4 (a.held segment)) ++ (zeros 4 ++
    (ofBytes (littleEndianBytes 8 0) ++ (zeros 8 ++
      (a.entryBytes segment (a.held segment) ++ zeros 4))))⟩

def ending (segment : Nat) : Content :=
  ⟨if segment + 1 = a.segmentCount then "done" else "next", .empty⟩

def contents (segment : Nat) : List Content :=
  a.leading segment ++ [a.sectors segment, a.table segment, a.ending segment]

def fileHeader (segment : Nat) : ByteArray :=
  ofBytes (signature ++ 1 :: (littleEndianBytes 2 (segment + 1) ++ littleEndianBytes 2 0))

def segmentFile (segment : Nat) : ByteArray :=
  fileHeader segment ++ Content.laidOut fileHeaderSize (a.contents segment)

/-- The numbers of the format are wide enough for these media. -/
structure Fits : Prop where
  chunks : a.chunkCount < 1 <<< 32
  files : ∀ segment < a.segmentCount, (a.segmentFile segment).size < 1 <<< 31

end Acquisition

/-! ## Sections of any numbers -/

def volumeSection (chunkCount sectorsPerChunk bytesPerSector sectorCount : Nat) : ByteArray :=
  ofBytes (littleEndianBytes 4 1 ++ (littleEndianBytes 4 chunkCount ++
    (littleEndianBytes 4 sectorsPerChunk ++ (littleEndianBytes 4 bytesPerSector ++
      littleEndianBytes 8 sectorCount))))

def tableSection (base : Nat) (entries : List Nat) : ByteArray :=
  ofBytes (littleEndianBytes 4 entries.length ++ (List.replicate 4 0 ++
    (littleEndianBytes 8 base ++ (List.replicate 8 0 ++ entries.flatMap (littleEndianBytes 4)))))

end EvidencePages.Ewf

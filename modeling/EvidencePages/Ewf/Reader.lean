import EvidencePages.Ewf.ChunkCache
import EvidencePages.Ewf.Segment
import EvidencePages.Store.HandlePool

/-!
# Random access to an evidence file

An evidence file is opened by walking all of its segments once. Its media are
cut into chunks of one size, which the tables locate. A read decodes the
chunks that it touches, or finds them in the cache, and joins their pieces.
-/

set_option autoImplicit false

namespace EvidencePages.Ewf

def cachedChunks : Nat := 64

structure Reader where
  pool : HandlePool
  segmentSizes : Array Nat
  volume : Volume
  chunks : Array ChunkLocation
  caseInfo : CaseInfo
  cache : ChunkCache

/-! ## Opening -/

structure Opening where
  pool : HandlePool
  segmentSizes : Array Nat := #[]
  volume : Option Volume := none
  chunks : Array ChunkLocation := #[]
  caseInfo : Option CaseInfo := none

def addSegment (store : FileStore) (index : Nat) (opening : Opening) :
    Except ContainerError Opening :=
  match opening.pool.fetch store index with
  | (.error cause, _) => .error (.io cause)
  | (.ok handle, pool) =>
    match checkFileHeader store handle index with
    | .error cause => .error cause
    | .ok () =>
      match walkSections store handle index with
      | .error cause => .error cause
      | .ok gathered =>
        .ok {
          pool
          segmentSizes := opening.segmentSizes.push (store.length handle)
          volume := opening.volume.or gathered.volume
          chunks := opening.chunks ++ gathered.chunks
          caseInfo := opening.caseInfo.or (gathered.wideHeader.or gathered.header) }

def addSegments (store : FileStore) : Nat → Nat → Opening → Except ContainerError Opening
  | 0, _, opening => .ok opening
  | count + 1, index, opening =>
    match addSegment store index opening with
    | .error cause => .error cause
    | .ok opening => addSegments store count (index + 1) opening

namespace Reader

/-- A table may not have more chunks than the volume declares. -/
def ofOpening (opening : Opening) : Except ContainerError Reader :=
  match opening.volume with
  | none => .error (.invalid .noVolume)
  | some volume =>
    if volume.chunkSize = 0 then .error (.invalid .zeroSizedChunks)
    else
      .ok {
        pool := opening.pool
        segmentSizes := opening.segmentSizes
        volume
        chunks := opening.chunks.take volume.chunkCount.toNat
        caseInfo := opening.caseInfo.getD {}
        cache := { maxEntries := cachedChunks } }

def openParts (store : FileStore) (parts : List Path) (maxOpen : Nat) :
    Except ContainerError Reader :=
  if parts = [] then .error (.invalid .noSegmentFiles)
  else
    match addSegments store parts.length 0 { pool := .ofPaths parts maxOpen } with
    | .error cause => .error cause
    | .ok opening => ofOpening opening

def mediaSize (reader : Reader) : Nat := reader.volume.mediaSize

/-- The size of the media is only given if it is a number of 64 bits. -/
def size (reader : Reader) : Except ContainerError Nat :=
  if UInt64.size ≤ reader.mediaSize then .error .overflow else .ok reader.mediaSize

def chunkSize (reader : Reader) : Nat := reader.volume.chunkSize.toNat

def chunkCount (reader : Reader) : Nat := reader.chunks.size

/-! ## Reading -/

/-- How many bytes to read for a compressed chunk; where nothing bounds it, twice a chunk. -/
def storedLength (volume : Volume) (location : ChunkLocation) (available : Nat) : Nat :=
  min (location.stored.getD (volume.chunkSize * 2)).toNat available

/-- Twice a chunk is too long. It is worked out for each compressed chunk, bounded or not. -/
def doublesOver (volume : Volume) : Bool := UInt64.size ≤ volume.chunkSize.toNat * 2

/-- Reads and decodes a chunk of `expected` bytes from its segment, which had `segmentSize` bytes
when it was opened. -/
def decodeChunk (store : FileStore) (handle : Handle) (volume : Volume) (segmentSize index : Nat)
    (location : ChunkLocation) (expected : Nat) : Except ContainerError ByteArray :=
  let offset := location.offset.toNat
  if segmentSize ≤ offset then .error (.outOfBounds offset segmentSize)
  else if location.compressed then
    if doublesOver volume then .error .overflow
    else
      match readBytes store handle offset (storedLength volume location (segmentSize - offset)) with
      | .error cause => .error cause
      | .ok raw =>
        if bufferLimit ≤ expected then .error (.bufferTooLarge expected)
        else
          match Zlib.decode? raw with
          | none => .error (.invalid (.chunkNotInflated index))
          | some data =>
            if data.size < expected then
              .error (.invalid (.chunkTooShort index data.size expected))
            else .ok (slice data 0 expected)
  else if bufferLimit ≤ expected then .error (.bufferTooLarge expected)
  else
    match readBytes store handle offset expected with
    | .error cause => .error cause
    | .ok data =>
      if data.size < expected then .error (.invalid (.chunkTruncated index data.size expected))
      else .ok data

def loadChunk (store : FileStore) (reader : Reader) (index : Nat) :
    Except ContainerError ByteArray × Reader :=
  match reader.chunks[index]? with
  | none =>
    (.error (.invalid (.chunkMissing index reader.chunks.size reader.volume.chunkCount.toNat)),
      reader)
  | some location =>
    match reader.pool.fetch store location.segment with
    | (.error cause, pool) => (.error (.io cause), { reader with pool })
    | (.ok handle, pool) =>
      (decodeChunk store handle reader.volume (reader.segmentSizes.getD location.segment 0) index
        location (reader.volume.chunkLength index), { reader with pool })

def readChunk (store : FileStore) (reader : Reader) (index : Nat) :
    Except ContainerError ByteArray × Reader :=
  match reader.cache.get index with
  | (some data, cache) => (.ok data, { reader with cache })
  | (none, _) =>
    match loadChunk store reader index with
    | (.error cause, reader) => (.error cause, reader)
    | (.ok data, reader) =>
      (.ok data, { reader with cache := reader.cache.insert index data })

/-- The media bytes from `offset` on, `length` at most, chunk after chunk. A chunk that does not
reach the position ends the read. -/
def readFrom (store : FileStore) (reader : Reader) (offset length : Nat) :
    Except ContainerError ByteArray × Reader :=
  if length = 0 then (.ok .empty, reader)
  else
    match readChunk store reader (offset / reader.chunkSize) with
    | (.error cause, reader) => (.error cause, reader)
    | (.ok chunk, next) =>
      let piece := slice chunk (offset % reader.chunkSize) length
      if piece.size = 0 then (.ok .empty, next)
      else
        match readFrom store next (offset + piece.size) (length - piece.size) with
        | (.error cause, last) => (.error cause, last)
        | (.ok rest, last) => (.ok (piece ++ rest), last)
termination_by length
decreasing_by
  change length - piece.size < length
  omega

def readAt (store : FileStore) (reader : Reader) (offset length : Nat) :
    Except ContainerError ByteArray × Reader :=
  match reader.size with
  | .error cause => (.error cause, reader)
  | .ok size => readFrom store reader offset (min length (size - offset))

end Reader

end EvidencePages.Ewf

import EvidencePages.Container.Error
import EvidencePages.Ewf.CaseInfo
import EvidencePages.Ewf.Format
import EvidencePages.Store.Reading

/-!
# One segment file

The sections of a segment are visited along their chain, from the end of the
file header on. The chain ends at a section that says so, at a descriptor that
does not fit in the file, at a step that does not go forward, or after so many
sections. What the visited sections hold is gathered. Ends of descriptors and
of sections and places of chunks are worked out as they are come to, and one
that is too large for 64 bits ends everything.
-/

set_option autoImplicit false

namespace EvidencePages.Ewf

def readBytes (store : FileStore) (handle : Handle) (offset length : Nat) :
    Except ContainerError ByteArray :=
  match store.readFull handle offset length with
  | .error cause => .error (.io cause)
  | .ok bytes => .ok bytes

def checkFileHeader (store : FileStore) (handle : Handle) (index : Nat) :
    Except ContainerError Unit :=
  match readBytes store handle 0 fileHeaderSize with
  | .error cause => .error cause
  | .ok bytes =>
    let found := (slice bytes 0 8).data.toList
    if bytes.size < fileHeaderSize then .error (.invalid (.segmentTooSmall (index + 1)))
    else if found = secondVersionSignature then .error (.invalid .secondVersion)
    else if found = logicalSignature then .error (.invalid .logicalEvidence)
    else if found ≠ signature then .error (.invalid (.noSignature (index + 1)))
    else .ok ()

structure Gathered where
  volume : Option Volume := none
  chunks : Array ChunkLocation := #[]
  header : Option CaseInfo := none
  wideHeader : Option CaseInfo := none
  /-- Where the latest sectors ended; it bounds the last chunk of a table. -/
  sectorsEnd : Option UInt64 := none

def maxHeaderLength : Nat := 1024 * 1024

def maxSections : Nat := 10000

def readTable (store : FileStore) (handle : Handle) (segment : Nat) (sectorsEnd : Option UInt64)
    (descriptor : Descriptor) : Except ContainerError (List ChunkLocation) :=
  match readBytes store handle descriptor.dataOffset.toNat Table.headerLength with
  | .error cause => .error cause
  | .ok header =>
    if header.size < Table.headerLength then .error (.invalid .tableTruncated)
    else
      let room := (descriptor.dataSize - Table.headerLength) / Table.entryLength
      let count := min (u32At header 0).toNat room
      let start := descriptor.dataOffset + UInt64.ofNat Table.headerLength
      match readBytes store handle start.toNat (count * Table.entryLength) with
      | .error cause => .error cause
      | .ok raw =>
        let base := u64At header 8
        if (Table.entries raw).any (Table.overflows base) then .error .overflow
        else .ok (Table.locations segment base sectorsEnd raw)

def visit (store : FileStore) (handle : Handle) (segment : Nat) (gathered : Gathered)
    (descriptor : Descriptor) : Except ContainerError Gathered :=
  match descriptor.kind with
  | .header wide =>
    let length := min descriptor.dataSize maxHeaderLength
    match readBytes store handle descriptor.dataOffset.toNat length with
    | .error cause => .error cause
    | .ok data =>
      if wide then
        .ok { gathered with wideHeader := gathered.wideHeader.or (some (.decode true data)) }
      else .ok { gathered with header := gathered.header.or (some (.decode false data)) }
  | .volume =>
    if gathered.volume.isSome then .ok gathered
    else
      match readBytes store handle descriptor.dataOffset.toNat Volume.length with
      | .error cause => .error cause
      | .ok data =>
        if data.size < Volume.length then .error (.invalid .volumeTruncated)
        else .ok { gathered with volume := some (.parse data) }
  | .sectors =>
    if descriptor.overflows then .error .overflow
    else .ok { gathered with sectorsEnd := some descriptor.stop }
  | .table =>
    match readTable store handle segment gathered.sectorsEnd descriptor with
    | .error cause => .error cause
    | .ok locations => .ok { gathered with chunks := gathered.chunks ++ locations }
  | .last => .ok gathered
  | .other => .ok gathered

def walkFrom (store : FileStore) (handle : Handle) (segment : Nat) (fileSize : UInt64) :
    Nat → UInt64 → Gathered → Except ContainerError Gathered
  | 0, _, gathered => .ok gathered
  | count + 1, offset, gathered =>
    let stop := offset.toNat + Descriptor.length
    if UInt64.size ≤ stop then .error .overflow
    else if fileSize.toNat < stop then .ok gathered
    else
      match readBytes store handle offset.toNat Descriptor.length with
      | .error cause => .error cause
      | .ok raw =>
        let descriptor := Descriptor.parse raw offset
        match visit store handle segment gathered descriptor with
        | .error cause => .error cause
        | .ok gathered =>
          if descriptor.kind = .last then .ok gathered
          else if descriptor.next ≤ offset then .ok gathered
          else walkFrom store handle segment fileSize count descriptor.next gathered

def walkSections (store : FileStore) (handle : Handle) (segment : Nat) :
    Except ContainerError Gathered :=
  walkFrom store handle segment (UInt64.ofNat (store.length handle)) maxSections
    (UInt64.ofNat fileHeaderSize) {}

end EvidencePages.Ewf

import EvidencePages.Path
import EvidencePages.Store.IoError

/-!
# Why a container cannot be used

The defects that a container can have, the other causes for which listing,
opening or reading one fails, and the text of each. Two causes are no failures
that a caller gets to see: where no buffer is large enough, and where a sum or
product has no place in its 64 bits, the program itself ends.
-/

set_option autoImplicit false

namespace EvidencePages

inductive Defect where
  | noSegmentFiles
  | segmentTooSmall (segment : Nat)
  | secondVersion
  | logicalEvidence
  | noSignature (segment : Nat)
  | volumeTruncated
  | tableTruncated
  | noVolume
  | zeroSizedChunks
  | chunkMissing (chunk present declared : Nat)
  | chunkTruncated (chunk actual expected : Nat)
  | chunkNotInflated (chunk : Nat)
  | chunkTooShort (chunk actual expected : Nat)
  | noMarker (name : String)
  | other (text : String)
  deriving DecidableEq, Repr

/-- Segments are counted from one. -/
def Defect.message : Defect → String
  | .noSegmentFiles => "no segment files"
  | .segmentTooSmall segment => "segment " ++ toString segment ++ " is too small"
  | .secondVersion => "EWF version 2 (Ex01) is not supported"
  | .logicalEvidence => "logical evidence files (L01) hold no media"
  | .noSignature segment => "segment " ++ toString segment ++ " has no EVF signature"
  | .volumeTruncated => "volume section truncated"
  | .tableTruncated => "table section truncated"
  | .noVolume => "no volume section found"
  | .zeroSizedChunks => "volume declares zero-sized chunks"
  | .chunkMissing chunk present declared =>
    "chunk " ++ toString chunk ++ " missing from table (" ++ toString present ++ " of "
      ++ toString declared ++ " chunks present)"
  | .chunkTruncated chunk actual expected =>
    "chunk " ++ toString chunk ++ " truncated: " ++ toString actual ++ " of " ++ toString expected
      ++ " bytes"
  | .chunkNotInflated chunk => "chunk " ++ toString chunk ++ " failed to inflate"
  | .chunkTooShort chunk actual expected =>
    "chunk " ++ toString chunk ++ " inflated to " ++ toString actual ++ " of " ++ toString expected
      ++ " bytes"
  | .noMarker name => "cannot find .E01. in " ++ name
  | .other text => text

inductive ContainerError where
  | io (cause : IoError)
  | invalid (defect : Defect)
  | outOfBounds (offset size : Nat)
  | noParts (path : Path)
  | bufferTooLarge (length : Nat)
  | overflow
  deriving DecidableEq, Repr

namespace ContainerError

def isFatal : ContainerError → Bool
  | .bufferTooLarge _ | .overflow => true
  | _ => false

def message : ContainerError → String
  | .io cause => "I/O error: " ++ cause.message
  | .invalid defect => "invalid container: " ++ defect.message
  | .outOfBounds offset size =>
    "offset " ++ toString offset ++ " is out of bounds (size " ++ toString size ++ ")"
  | .noParts path => "no container parts found for " ++ path.text
  | .bufferTooLarge length => "no buffer can hold " ++ toString length ++ " bytes"
  | .overflow => "arithmetic overflow"

end ContainerError

end EvidencePages

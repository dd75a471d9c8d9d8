import EvidencePages.Ewf.Reader
import EvidencePages.Naming.PartExtension
import EvidencePages.Naming.Wildcard
import EvidencePages.Outcome

/-!
# Container codecs

A codec lists the parts of a container, opens them, and serves reads of the
media in them. One codec, for evidence files, is built in; another is supplied
from outside, with media that need no state between reads.
-/

set_option autoImplicit false

namespace EvidencePages

/-- Media that a supplied codec serves. -/
structure SuppliedMedia where
  size : Nat
  read : FileStore → Nat → Nat → Except ContainerError ByteArray
  caseValue : CaseField → Option String

inductive OpenMedia where
  | ewf (reader : Ewf.Reader)
  | supplied (media : SuppliedMedia)

namespace OpenMedia

def size : OpenMedia → Nat
  | .ewf reader => reader.mediaSize
  | .supplied media => media.size

def caseValue (field : CaseField) : OpenMedia → Option String
  | .ewf reader => reader.caseInfo.value? field
  | .supplied media => media.caseValue field

def readAt (store : FileStore) (media : OpenMedia) (offset length : Nat) :
    Except ContainerError ByteArray × OpenMedia :=
  match media with
  | .ewf reader =>
    let (result, reader) := reader.readAt store offset length
    (result, .ewf reader)
  | .supplied source =>
    match source.read store offset length with
    | .error cause => (.error cause, media)
    | .ok bytes => (.ok (slice bytes 0 length), media)

end OpenMedia

structure Codec where
  name : String
  listParts : FileStore → Path → Except ContainerError (List Path)
  openParts : FileStore → List Path → Except ContainerError OpenMedia

namespace Codec

def ewfParts (store : FileStore) (first : Path) : Except ContainerError (List Path) :=
  if store.isFile first then .ok (EvidenceParts.discover store first) else .error (.noParts first)

def ewf (maxOpen : Nat) : Codec where
  name := "ewf"
  listParts := ewfParts
  openParts store parts :=
    match Ewf.Reader.openParts store parts (max 1 maxOpen) with
    | .error cause => .error cause
    | .ok reader => .ok (.ewf reader)

def builtIn : Codec := ewf 16

/-- The parts of the container that `path` is the first part of. A name with a marker goes by its
pattern, any other by the codec. -/
def enumerate (store : FileStore) (codec : Codec) (path : Path) :
    Except ContainerError (List Path) × List Warning :=
  let marked := Wildcard.isMarked (path.fileName.getD "").toList
  let listed := if marked then Wildcard.parts store path else codec.listParts store path
  let warnings := if marked then [.experimentalParts] else []
  match listed with
  | .ok [] => (.error (.noParts path), warnings)
  | other => (other, warnings)

end Codec

end EvidencePages

import EvidencePages.Naming.SplitName
import EvidencePages.Paging.ByteGeometry
import EvidencePages.Raw.DeviceProbe
import EvidencePages.Raw.Segments
import EvidencePages.Store.HandlePool

/-!
# Raw images

A raw image is one file or device, or the parts of a split one, read as one
address space. Its sizes are taken when it is opened; its parts are opened
when they are read.
-/

set_option autoImplicit false

namespace EvidencePages

/-- The parts of an open image with the pool that serves them. -/
structure SplitIndex where
  segments : List Segment
  pool : HandlePool

namespace SplitIndex

def size (index : SplitIndex) : Nat := Segment.total index.segments

/-- Reads from the segment that owns the offset, and goes on behind the bytes it gave. A segment
that gives none has shrunk and ends the read. -/
def read (store : FileStore) (index : SplitIndex) (offset length : Nat) :
    Except ImageError ByteArray × SplitIndex :=
  if length = 0 then (.ok .empty, index)
  else
    match Segment.owner? index.segments offset with
    | none => (.ok .empty, index)
    | some (part, segment) =>
      let within := offset - segment.start
      match index.pool.fetch store part with
      | (.error cause, pool) => (.error (.read offset (.io cause)), { index with pool })
      | (.ok handle, pool) =>
        match store.readAt handle within (min length (segment.length - within)) with
        | .error cause => (.error (.read offset (.io cause)), { index with pool })
        | .ok bytes =>
          if bytes.size = 0 then (.ok .empty, { index with pool })
          else
            match read store { index with pool } (offset + bytes.size) (length - bytes.size) with
            | (.error cause, last) => (.error cause, last)
            | (.ok rest, last) => (.ok (bytes ++ rest), last)
termination_by length

end SplitIndex

structure RawImage where
  path : Path
  config : Config
  index : Option SplitIndex := none

namespace RawImage

/-- The length of a part; one of no length may be a device and is searched. What was opened just now
also tells its length, so a failure to ask for that is left out. -/
def partLength (store : FileStore) (path : Path) : Except ImageError Nat :=
  match store.openFile path with
  | .error cause => .error (.noSuchFile path (.cannotOpen cause))
  | .ok handle => DeviceProbe.fileSize store handle

/-- The lengths of the parts behind `total` bytes. The bytes of all parts have to be a number of
64 bits. -/
def partLengths (store : FileStore) : Nat → List Path → Except ImageError (List (Path × Nat))
  | _, [] => .ok []
  | total, path :: rest =>
    match partLength store path with
    | .error cause => .error cause
    | .ok length =>
      if UInt64.size ≤ total + length then .error .overflow
      else
        match partLengths store (total + length) rest with
        | .error cause => .error cause
        | .ok lengths => .ok ((path, length) :: lengths)

/-- The file at `path` and, if its name says that it is the first of several, the others. -/
def parts (store : FileStore) (path : Path) : List Path :=
  match SplitName.ofPath? path with
  | none => [path]
  | some name => path :: name.laterParts store

def openImage (store : FileStore) (image : RawImage) : Except ImageError RawImage :=
  match image.index with
  | some _ => .ok image
  | none =>
    match image.config.validate with
    | .error cause => .error (.invalidConfig cause)
    | .ok () =>
      let paths := parts store image.path
      match partLengths store 0 paths with
      | .error cause => .error cause
      | .ok lengths =>
        .ok { image with
          index := some {
            segments := Segment.layout 0 lengths
            pool := .ofPaths paths image.config.maxOpenFiles } }

def size (image : RawImage) : Nat :=
  match image.index with
  | none => 0
  | some index => index.size

def geometry (image : RawImage) : ByteGeometry :=
  ⟨image.size, image.config.pageSize, image.config.margin⟩

def segments (image : RawImage) : List Segment :=
  match image.index with
  | none => []
  | some index => index.segments

def owner? (image : RawImage) (offset : Nat) : Option Segment :=
  (Segment.owner? image.segments offset).map (·.2)

def openHandles (image : RawImage) : Nat :=
  match image.index with
  | none => 0
  | some index => index.pool.openCount

def pread (store : FileStore) (image : RawImage) (offset length : Nat) :
    Outcome RawImage ByteArray :=
  match image.index with
  | none => { result := .ok .empty, state := image }
  | some index =>
    let (result, index) := index.read store offset length
    Outcome.reporting image.config.reportReadErrors
      { result, state := { image with index := some index } }

def readPage (store : FileStore) (image : RawImage) (cursor : Cursor) :
    Outcome RawImage (Option Page) :=
  image.geometry.readPage (pread store) image cursor

end RawImage

end EvidencePages

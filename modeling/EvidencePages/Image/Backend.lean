import EvidencePages.Container.ContainerImage
import EvidencePages.Directory.DirectoryImage
import EvidencePages.Raw.RawImage

/-!
# The kinds of images

What all images have in common: a path, a size, cursors over it, and pages.
Raw and container images are paged over bytes, directories over files.
-/

set_option autoImplicit false

namespace EvidencePages

inductive BackendKind where
  | raw
  | container
  | directory
  deriving DecidableEq, Repr

def BackendKind.name : BackendKind → String
  | .raw => "raw"
  | .container => "container"
  | .directory => "directory"

inductive Backend where
  | raw (image : RawImage)
  | container (image : ContainerImage)
  | directory (image : DirectoryImage)

namespace Backend

def kind : Backend → BackendKind
  | .raw _ => .raw
  | .container _ => .container
  | .directory _ => .directory

def path : Backend → Path
  | .raw image => image.path
  | .container image => image.path
  | .directory image => image.root

/-- Bytes, or files of a directory. -/
def size : Backend → Nat
  | .raw image => image.size
  | .container image => image.size
  | .directory image => image.count

def segments : Backend → List Segment
  | .raw image => image.segments
  | _ => []

def details : Backend → List String
  | .container image => image.caseDetails
  | _ => []

def openBackend (store : FileStore) : Backend → Outcome Backend Unit
  | .raw image =>
    match image.openImage store with
    | .error cause => { result := .error cause, state := .raw image }
    | .ok image => { result := .ok (), state := .raw image }
  | .container image => (image.openImage store).on .container
  | .directory image => { result := .ok (), state := .directory image }

def pread (store : FileStore) (backend : Backend) (offset length : Nat) :
    Outcome Backend ByteArray :=
  match backend with
  | .raw image => (image.pread store offset length).on .raw
  | .container image => (image.pread store offset length).on .container
  | .directory image =>
    { result := .error (.unsupportedOperation "directory" "pread"), state := .directory image }

/-! ## Cursors -/

def first : Backend → Cursor
  | .raw image => image.geometry.first
  | .container image => image.geometry.first
  | .directory image => image.first

def last : Backend → Cursor
  | .raw image => image.geometry.last
  | .container image => image.geometry.last
  | .directory image => image.last

def advance (backend : Backend) (cursor : Cursor) : Cursor :=
  match backend with
  | .raw image => image.geometry.advance cursor
  | .container image => image.geometry.advance cursor
  | .directory image => image.advance cursor

/-- How many pages there are; for a page size of zero there is no number. -/
def blockCount? : Backend → Option Nat
  | .raw image => image.geometry.blockCount?
  | .container image => image.geometry.blockCount?
  | .directory image => some image.count

def seek? (backend : Backend) (block : Nat) : Option (Cursor × Nat) :=
  match backend with
  | .raw image => image.geometry.seek? block
  | .container image => image.geometry.seek? block
  | .directory image => some (image.seek block)

def fractionDone (backend : Backend) (cursor : Cursor) : Float :=
  match backend with
  | .raw image => fraction (image.geometry.offsetOf cursor) image.size
  | .container image => fraction (image.geometry.offsetOf cursor) image.size
  | .directory image => fraction (image.indexOf cursor) image.count

def describe (backend : Backend) (cursor : Cursor) : String :=
  match backend with
  | .raw image => image.geometry.describe cursor
  | .container image => image.geometry.describe cursor
  | .directory image => image.describe cursor

def positionOf (backend : Backend) (cursor : Cursor) : Position :=
  match backend with
  | .raw image => image.geometry.positionOf cursor
  | .container image => image.geometry.positionOf cursor
  | .directory image => image.positionOf cursor

def readPage (store : FileStore) (backend : Backend) (cursor : Cursor) :
    Outcome Backend (Option Page) :=
  match backend with
  | .raw image => (image.readPage store cursor).on .raw
  | .container image => (image.readPage store cursor).on .container
  | .directory image =>
    { result := image.readPage store cursor, state := .directory image }

end Backend

end EvidencePages

import EvidencePages.Image.Backend

/-!
# Open images

An image is a backend that has been opened, with the configuration it was
opened under. Opening looks at the path to tell which backend it calls for.
-/

set_option autoImplicit false

namespace EvidencePages

structure Image where
  backend : Backend
  config : Config

structure ImageInfo where
  kind : BackendKind
  path : Path
  size : Nat
  blockCount : Nat
  pageSize : Nat
  margin : Nat
  segments : List Segment
  details : List String

namespace Image

/-! ## Opening -/

/-- A failure to open is a missing file or an invalid configuration; any other cause is told as
the reason for the former, unless the program ends with it. -/
def openingError (path : Path) : ImageError → ImageError
  | .noSuchFile inner reason => .noSuchFile inner reason
  | .invalidConfig cause => .invalidConfig cause
  | .bufferTooLarge length => .bufferTooLarge length
  | .overflow => .overflow
  | other => .noSuchFile path (.other other.message)

/-- The image over a backend, once `opening` has opened it. An invalid configuration is told
before that. -/
def openOver {σ : Type} (config : Config) (path : Path) (opening : Unit → Outcome σ Unit) :
    Except ImageError σ × List Warning :=
  match config.validate with
  | .error cause => (.error (.invalidConfig cause), [])
  | .ok () =>
    let opened := opening ()
    match opened.result with
    | .error cause => (.error (openingError path cause), opened.warnings)
    | .ok () => (.ok opened.state, opened.warnings)

def ofBackend (store : FileStore) (backend : Backend) (config : Config) :
    Except ImageError Image × List Warning :=
  match openOver config backend.path fun _ => backend.openBackend store with
  | (.error cause, warnings) => (.error cause, warnings)
  | (.ok backend, warnings) => (.ok ⟨backend, config⟩, warnings)

/-- Whether a path calls for a container codec: by what follows its last dot, or by a marker
anywhere in it. -/
def isContainerPath (path : Path) : Bool :=
  path.textAfterLastDot.toList.map Char.toLower = ['e', '0', '1']
    || Wildcard.isMarked path.text.toList

def partExtensions : List String := ["E01", "000", "001"]

def findImagePart (dir : Path) (names : List String) : Option Path :=
  (names.map dir.join).find? fun entry =>
    match entry.extension with
    | none => false
    | some ext => partExtensions.contains ext

def selectDirectory (store : FileStore) (path : Path) :
    Except ImageError Backend × List Warning :=
  match store.names path with
  | .error cause => (.error (.noSuchFile path (.noEntry cause)), [])
  | .ok names =>
    match findImagePart path names with
    | some part => (.error (.noSuchFile path (.holdsImagePart part)), [])
    | none =>
      let (image, warnings) := DirectoryImage.scan store path
      (.ok (.directory image), warnings)

/-- The backend that a path calls for, not yet opened. -/
def select (store : FileStore) (path : Path) (recurse : Bool) (config : Config)
    (codec : Option Codec) : Except ImageError Backend × List Warning :=
  match store.find path with
  | .error cause => (.error (.noSuchFile path (.noEntry cause)), [])
  | .ok .directory =>
    if recurse then selectDirectory store path
    else (.error (.noSuchFile path .isDirectory), [])
  | .ok _ =>
    if isContainerPath path then
      match codec with
      | none => (.error .noCodec, [])
      | some codec => (.ok (.container { path, config, codec }), [])
    else (.ok (.raw { path, config }), [])

def openWith (store : FileStore) (path : Path) (recurse : Bool) (config : Config)
    (codec : Option Codec) : Except ImageError Image × List Warning :=
  match config.validate with
  | .error cause => (.error (.invalidConfig cause), [])
  | .ok () =>
    match select store path recurse config codec with
    | (.error cause, warnings) => (.error cause, warnings)
    | (.ok backend, selecting) =>
      let (image, opening) := ofBackend store backend config
      (image, selecting ++ opening)

def openPath (store : FileStore) (path : Path) (recurse : Bool) (config : Config) :
    Except ImageError Image × List Warning :=
  openWith store path recurse config (some .builtIn)

/-! ## Using -/

def blockCount (image : Image) : Nat := image.backend.blockCount?.getD 0

def seek (image : Image) (block : Nat) : Cursor × Nat :=
  (image.backend.seek? block).getD (image.backend.last, 0)

def info (image : Image) : ImageInfo where
  kind := image.backend.kind
  path := image.backend.path
  size := image.backend.size
  blockCount := image.blockCount
  pageSize := image.config.pageSize
  margin := image.config.margin
  segments := image.backend.segments
  details := image.backend.details

def withBackend (image : Image) (backend : Backend) : Image := { image with backend }

def pread (store : FileStore) (image : Image) (offset length : Nat) : Outcome Image ByteArray :=
  (image.backend.pread store offset length).on image.withBackend

def readPage (store : FileStore) (image : Image) (cursor : Cursor) :
    Outcome Image (Option Page) :=
  (image.backend.readPage store cursor).on image.withBackend

def readBlock (store : FileStore) (image : Image) (block : Nat) : Outcome Image (Option Page) :=
  if image.blockCount ≤ block then { result := .ok none, state := image }
  else image.readPage store (image.seek block).1

end Image

end EvidencePages

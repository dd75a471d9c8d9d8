import EvidencePages.Container.Codec
import EvidencePages.Paging.ByteGeometry
import EvidencePages.Text.Space

/-!
# Container images

A container image is the media in a container, read through a codec.
-/

set_option autoImplicit false

namespace EvidencePages

structure OpenContainer where
  media : OpenMedia
  parts : List Path
  details : List String

structure ContainerImage where
  path : Path
  config : Config
  codec : Codec
  opened : Option OpenContainer := none

namespace ContainerImage

def details (media : OpenMedia) : List String :=
  CaseField.all.filterMap fun field =>
    match media.caseValue field with
    | none => none
    | some value =>
      let value := Text.trim value.toList
      if value = [] then none else some (field.label ++ ": " ++ String.ofList value)

/-- Opening an open image changes nothing. The size of the media is asked for when they are open,
so that it is known to be a number of 64 bits from then on. -/
def openImage (store : FileStore) (image : ContainerImage) : Outcome ContainerImage Unit :=
  match image.opened with
  | some _ => { result := .ok (), state := image }
  | none =>
    match image.config.validate with
    | .error cause => { result := .error (.invalidConfig cause), state := image }
    | .ok () =>
      match image.codec.enumerate store image.path with
      | (.error cause, warnings) =>
        { result := .error (.ofOpening image.path .cannotListParts cause), state := image,
          warnings }
      | (.ok parts, warnings) =>
        match image.codec.openParts store parts with
        | .error cause =>
          { result := .error (.ofOpening image.path (.cannotOpenParts image.codec.name) cause),
            state := image, warnings }
        | .ok media =>
          if UInt64.size ≤ media.size then { result := .error .overflow, state := image, warnings }
          else
            { result := .ok (),
              state := { image with opened := some { media, parts, details := details media } },
              warnings }

def size (image : ContainerImage) : Nat :=
  match image.opened with
  | none => 0
  | some container => container.media.size

def geometry (image : ContainerImage) : ByteGeometry :=
  ⟨image.size, image.config.pageSize, image.config.margin⟩

def parts (image : ContainerImage) : List Path :=
  match image.opened with
  | none => []
  | some container => container.parts

def caseDetails (image : ContainerImage) : List String :=
  match image.opened with
  | none => []
  | some container => container.details

def pread (store : FileStore) (image : ContainerImage) (offset length : Nat) :
    Outcome ContainerImage ByteArray :=
  match image.opened with
  | none => { result := .ok .empty, state := image }
  | some container =>
    let size := container.media.size
    if size ≤ offset then { result := .ok .empty, state := image }
    else
      match container.media.readAt store offset (min length (size - offset)) with
      | (.error cause, media) =>
        Outcome.reporting image.config.reportReadErrors
          { result := .error (.ofContainer offset cause),
            state := { image with opened := some { container with media } } }
      | (.ok bytes, media) =>
        { result := .ok bytes, state := { image with opened := some { container with media } } }

def readPage (store : FileStore) (image : ContainerImage) (cursor : Cursor) :
    Outcome ContainerImage (Option Page) :=
  image.geometry.readPage (pread store) image cursor

end ContainerImage

end EvidencePages

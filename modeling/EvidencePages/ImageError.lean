import EvidencePages.Config
import EvidencePages.Container.Error

/-!
# Why an image cannot be opened or read

The causes and the text of each.
-/

set_option autoImplicit false

namespace EvidencePages

/-- Why there is no image at a path. -/
inductive Refusal where
  | noEntry (cause : IoError)
  | cannotOpen (cause : IoError)
  | isDirectory
  | holdsImagePart (part : Path)
  | cannotListParts (cause : ContainerError)
  | cannotOpenParts (codec : String) (cause : ContainerError)
  | other (text : String)
  deriving DecidableEq, Repr

def Refusal.message : Refusal → String
  | .noEntry cause => cause.message
  | .cannotOpen cause => "cannot open: " ++ cause.message
  | .isDirectory => "is a directory but directory recursion is not enabled"
  | .holdsImagePart part =>
    "contains image part " ++ part.text ++ "; directory recursion is not for EnCase sets or "
      ++ "split raw images. Process them as a single image, or nest them one directory deeper"
  | .cannotListParts cause => "cannot list parts: " ++ cause.message
  | .cannotOpenParts codec cause => codec ++ " open failed: " ++ cause.message
  | .other text => text

inductive ReadFailure where
  | io (cause : IoError)
  | short (expected actual : Nat)
  | container (text : String)
  | map (path : Path) (cause : IoError)
  deriving DecidableEq, Repr

def ReadFailure.message : ReadFailure → String
  | .io cause => "I/O failure: " ++ cause.message
  | .short expected actual =>
    "short read: expected " ++ toString expected ++ " bytes, got " ++ toString actual
  | .container text => "container codec: " ++ text
  | .map path cause => "cannot map " ++ path.text ++ ": " ++ cause.message

inductive ImageError where
  | noSuchFile (path : Path) (reason : Refusal)
  | noSupport (text : String)
  | read (offset : Nat) (failure : ReadFailure)
  | unsupportedOperation (backend operation : String)
  | probeExhausted
  | invalidConfig (cause : ConfigError)
  | bufferTooLarge (length : Nat)
  | overflow
  deriving DecidableEq, Repr

namespace ImageError

def message : ImageError → String
  | .noSuchFile path reason => "no such file: " ++ path.text ++ ": " ++ reason.message
  | .noSupport text => "not supported: " ++ text
  | .read offset failure => "read error at offset " ++ toString offset ++ ": " ++ failure.message
  | .unsupportedOperation backend operation =>
    backend ++ " backend does not support " ++ operation
  | .probeExhausted => "device size probe exhausted: no readable upper bound below 2^59"
  | .invalidConfig cause => "invalid configuration: " ++ cause.message
  | .bufferTooLarge length => (ContainerError.bufferTooLarge length).message
  | .overflow => ContainerError.overflow.message

def isOpenError : ImageError → Bool
  | .noSuchFile _ _ => true
  | .noSupport _ => true
  | .invalidConfig _ => true
  | _ => false

def isReadError : ImageError → Bool
  | .read _ _ => true
  | _ => false

/-- Not an error that is returned: the program ends there. -/
def isFatal : ImageError → Bool
  | .bufferTooLarge _ | .overflow => true
  | _ => false

def ofContainer (offset : Nat) : ContainerError → ImageError
  | .bufferTooLarge length => .bufferTooLarge length
  | .overflow => .overflow
  | cause => .read offset (.container cause.message)

def ofOpening (path : Path) (reason : ContainerError → Refusal) : ContainerError → ImageError
  | .bufferTooLarge length => .bufferTooLarge length
  | .overflow => .overflow
  | cause => .noSuchFile path (reason cause)

def noCodec : ImageError := .noSupport "this build has no container codec for E01 images"

end ImageError

end EvidencePages

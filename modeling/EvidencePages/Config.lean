import EvidencePages.Path
import EvidencePages.Store.IoError

/-!
# Configuration

How an image is paged, how many of its files may be open at once, and whether
read errors are reported. Sizes are in bytes.
-/

set_option autoImplicit false

namespace EvidencePages

inductive ConfigError where
  | zeroPageSize
  | zeroMaxOpenFiles
  | malformedJson
  | unreadable (path : Path) (cause : IoError)
  | other (text : String)
  deriving DecidableEq, Repr

def ConfigError.message : ConfigError → String
  | .zeroPageSize => "page_size must be positive"
  | .zeroMaxOpenFiles => "max_open_files must be positive"
  | .malformedJson => "malformed JSON"
  | .unreadable path cause => "cannot read " ++ path.text ++ ": " ++ cause.message
  | .other text => text

structure Config where
  pageSize : Nat := 16 * 1024 * 1024
  margin : Nat := 4 * 1024 * 1024
  reportReadErrors : Bool := true
  maxOpenFiles : Nat := 32
  deriving DecidableEq, Inhabited, Repr

namespace Config

/-- Sizes have 64 bits. -/
def sizeLimit : Nat := 1 <<< 64

def window (config : Config) : Nat := min (config.pageSize + config.margin) (sizeLimit - 1)

def validate (config : Config) : Except ConfigError Unit :=
  if config.pageSize = 0 then .error .zeroPageSize
  else if config.maxOpenFiles = 0 then .error .zeroMaxOpenFiles
  else .ok ()

theorem validate_eq_ok {config : Config} :
    config.validate = .ok () ↔ 0 < config.pageSize ∧ 0 < config.maxOpenFiles := by
  unfold validate
  split
  · simp_all
  · split
    · simp_all
    · simp only [true_iff]
      omega

end Config

end EvidencePages

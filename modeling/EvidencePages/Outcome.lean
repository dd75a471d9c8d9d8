import EvidencePages.ImageError

/-!
# Outcomes

A step on an image answers or fails, leaves the image in a new state either
way, and may log warnings.
-/

set_option autoImplicit false

namespace EvidencePages

inductive Warning where
  | readError
  | experimentalParts
  | unreadableEntry
  deriving DecidableEq, Repr

def Warning.message : Warning → String
  | .readError => "Read error"
  | .experimentalParts => "Experimental part matching for E01 names with checksums appended"
  | .unreadableEntry => "Skipping unreadable directory entry"

/-- What a step on a `σ` comes to: its answer, the `σ` after it, and the warnings it logged. -/
structure Outcome (σ α : Type) where
  result : Except ImageError α
  state : σ
  warnings : List Warning := []

namespace Outcome

variable {σ τ α : Type}

def on (outcome : Outcome σ α) (rebuild : σ → τ) : Outcome τ α :=
  { outcome with state := rebuild outcome.state }

/-- Logs a failed read, if read errors are to be reported. -/
def reporting (report : Bool) (outcome : Outcome σ α) : Outcome σ α :=
  match outcome.result with
  | .ok _ => outcome
  | .error cause =>
    if report && cause.isReadError then
      { outcome with warnings := outcome.warnings ++ [.readError] }
    else outcome

end Outcome

end EvidencePages

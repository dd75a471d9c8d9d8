/-!
# Case metadata

The fields of a case that a container may carry, in the order in which they
are shown.
-/

set_option autoImplicit false

namespace EvidencePages

inductive CaseField where
  | notes
  | caseNumber
  | evidenceNumber
  | examinerName
  deriving DecidableEq, Repr

namespace CaseField

def all : List CaseField := [.notes, .caseNumber, .evidenceNumber, .examinerName]

def label : CaseField → String
  | .notes => "NOTES"
  | .caseNumber => "CASE NUMBER"
  | .evidenceNumber => "EVIDENCE NUMBER"
  | .examinerName => "EXAMINER NAME"

end CaseField

end EvidencePages

import EvidencePages.Container.CaseField
import EvidencePages.Text.Decode
import EvidencePages.Text.Pieces
import EvidencePages.Text.Space
import EvidencePages.Zlib.Stream

/-!
# Case information of an evidence file

A header section holds a small table as compressed text: a row of field
identifiers and, on the next line, a row of values, both cut at tabs. The row
of identifiers is the first that has both a case number and an evidence number
and a line after it. Blank values are left out.
-/

set_option autoImplicit false

namespace EvidencePages.Ewf

/-- Identifiers with their values, the last one of a row first. -/
structure CaseInfo where
  fields : List (List Char × List Char) := []
  deriving DecidableEq, Repr

namespace CaseInfo

def isEmpty (info : CaseInfo) : Bool := info.fields.isEmpty

/-- Lines end at a line feed, with carriage returns before it, and the last may end without. -/
def lines (text : List Char) : List (List Char) :=
  let cut := Text.pieces '\n' text
  let kept := if cut.getLast? = some [] then cut.dropLast else cut
  kept.map fun line => (line.reverse.dropWhile (· = '\r')).reverse

def isKeyRow (cells : List (List Char)) : Bool := cells.contains ['c'] && cells.contains ['n']

def ofRow (keys values : List (List Char)) : CaseInfo where
  fields := ((keys.zip values).filterMap fun (key, value) =>
    let value := Text.trim value
    if value = [] then none else some (Text.trim key, value)).reverse

def ofLines : List (List Char) → CaseInfo
  | keyLine :: valueLine :: rest =>
    let keys := Text.pieces '\t' keyLine
    if isKeyRow keys then ofRow keys (Text.pieces '\t' valueLine)
    else ofLines (valueLine :: rest)
  | _ => {}

def ofText (text : List Char) : CaseInfo := ofLines (lines text)

def byteOrderMark : Char := '\uFEFF'

def decode (wide : Bool) (data : ByteArray) : CaseInfo :=
  let raw := (Zlib.decode? data).getD data
  let text := if wide then Text.utf16 raw else Text.utf8 raw
  ofText (text.dropWhile (· = byteOrderMark))

def key : CaseField → List Char
  | .notes => ['t']
  | .caseNumber => ['c']
  | .evidenceNumber => ['n']
  | .examinerName => ['e']

def value? (info : CaseInfo) (field : CaseField) : Option String :=
  (info.fields.lookup (key field)).map String.ofList

end CaseInfo

end EvidencePages.Ewf

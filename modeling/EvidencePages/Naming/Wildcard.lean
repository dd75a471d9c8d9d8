import EvidencePages.Container.Error
import EvidencePages.Store.FileStore

/-!
# Parts with checksums in their names

Some tools append a checksum to the name of each part, as in `disk.E01.9f8e`.
The parts then differ in more than their extension. They are found by a
pattern: from the marker `.E01.` on, only the dots of the name are kept and
every other character may be any.
-/

set_option autoImplicit false

namespace EvidencePages.Wildcard

def marker : List Char := ['.', 'E', '0', '1', '.']

/-- A name cut where the first marker starts. -/
def cutAtMarker : List Char → Option (List Char × List Char)
  | [] => none
  | c :: rest =>
    if marker.isPrefixOf (c :: rest) then some ([], c :: rest)
    else (cutAtMarker rest).map fun (head, tail) => (c :: head, tail)

def isMarked (name : List Char) : Bool := (cutAtMarker name).isSome

def anyCharacter : Char := '?'

def pattern? (name : List Char) : Option (List Char) :=
  (cutAtMarker name).map fun (head, tail) =>
    head ++ tail.map fun c => if c = '.' then '.' else anyCharacter

/-- A question mark stands for any one character but a line feed, and any other character for
itself. -/
def matching : List Char → List Char → Bool
  | [], [] => true
  | p :: pattern, c :: name =>
    (if p = anyCharacter then c ≠ '\n' else p = c) && matching pattern name
  | _, _ => false

/-- The files beside `path` whose names match its pattern, in the order of their paths. -/
def parts (store : FileStore) (path : Path) : Except ContainerError (List Path) :=
  let name := path.fileName.getD ""
  match pattern? name.toList with
  | none => .error (.invalid (.noMarker name))
  | some pattern =>
    let beside := path.directory
    let dir : Path := if beside.text = "" then ⟨"."⟩ else beside
    match store.names dir with
    | .error cause => .error (.io cause)
    | .ok names =>
      let matched := names.filter fun other => matching pattern other.toList
      .ok (((matched.map dir.join).filter store.isFile).mergeSort Path.le)

end EvidencePages.Wildcard

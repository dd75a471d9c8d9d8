import EvidencePages.Bytes
import EvidencePages.Path
import EvidencePages.Store.IoError

/-!
# A file store

A tree of names over file contents. Every entry stands under its location, the
names from the root down with the innermost first, and a location never runs
through a link, so the entries below a directory are those whose locations end
in its own. A regular file is a number into the contents: a name that is
removed and made again is another file, while a file that is written under its
old name keeps its number.

A path is walked name by name, and a link met on the way is followed.
-/

set_option autoImplicit false

namespace EvidencePages

abbrev Location := List String

inductive Device where
  | zero
  | null
  deriving DecidableEq, Repr

inductive Node where
  | regular (file : Nat)
  | directory
  | link (target : Path)
  | device (kind : Device)
  deriving DecidableEq, Repr

inductive Handle where
  | file (id : Nat)
  | directory (location : Location)
  | device (kind : Device)
  deriving DecidableEq, Repr

/-- The tree and the contents, with what is up to the host: how much one read delivers, what it
refuses to read or to list, and the sizes that directories report. -/
structure FileStore where
  entries : List (Location × Node)
  contents : Array ByteArray
  workingDirectory : Location
  grant : Handle → Nat → Nat → Nat := fun _ _ available => available
  refusal : Handle → Option IoError := fun _ => none
  directoryLength : Location → Nat := fun _ => 4096

namespace FileStore

/-- A store that holds the two devices and an empty working directory. -/
def blank : FileStore where
  entries := [
    (["dev"], .directory),
    (["zero", "dev"], .device .zero),
    (["null", "dev"], .device .null),
    (["work"], .directory)]
  contents := #[]
  workingDirectory := ["work"]

def node? (store : FileStore) (location : Location) : Option Node :=
  if location = [] then some .directory else store.entries.lookup location

/-! ## Walking a path -/

/-- The names that a path steps through; a final slash asks for a directory, as a final `.` does. -/
def steps (path : Path) : List String :=
  let names := (Text.cut '/' path.text).filter (· ≠ "")
  if path.text.toList.getLast? = some '/' then names ++ ["."] else names

def maxNameSize : Nat := 255

def maxPathSize : Nat := 4095

def pathFault? (path : Path) : Option IoError :=
  if path.text = "" then some .notFound
  else if '\x00' ∈ path.text.toList then some .nulInPath
  else if maxPathSize < path.text.utf8ByteSize then some .nameTooLong
  else none

def origin (here : Location) (path : Path) : Location := if path.isAbsolute then [] else here

/-- Where `names` lead from a location, with `follow` going on along the target of a link. A last
name that stands nowhere leads to the place where it would stand, if `vacant` places count. -/
def walk (store : FileStore) (vacant : Bool)
    (follow : Location → List String → Except IoError Location) :
    Location → List String → Except IoError Location
  | here, [] => .ok here
  | here, name :: rest =>
    match store.node? here with
    | some .directory =>
      if name = "." then store.walk vacant follow here rest
      else if name = ".." then store.walk vacant follow here.tail rest
      else if maxNameSize < name.utf8ByteSize then .error .nameTooLong
      else
        match store.node? (name :: here) with
        | none => if vacant && rest.isEmpty then .ok (name :: here) else .error .notFound
        | some (.link target) => follow (origin here target) (steps target ++ rest)
        | some _ => store.walk vacant follow (name :: here) rest
    | _ => .error .notADirectory

/-- A walk that meets up to so many links, those met in the targets of links included. -/
def walkLinks (store : FileStore) (vacant : Bool) :
    Nat → Location → List String → Except IoError Location
  | 0 => store.walk vacant fun _ _ => .error .tooManyLinks
  | links + 1 => store.walk vacant (store.walkLinks vacant links)

/-- More links than this are too many for one walk. -/
def maxLinks : Nat := 40

def walkFrom (store : FileStore) (vacant : Bool) (path : Path) (names : List String) :
    Except IoError Location :=
  match pathFault? path with
  | some cause => .error cause
  | none => store.walkLinks vacant maxLinks (origin store.workingDirectory path) names

/-- Where a path leads, or to which vacant place if these count. -/
def reach (store : FileStore) (vacant : Bool) (path : Path) : Except IoError Location :=
  store.walkFrom vacant path (steps path)

def resolve (store : FileStore) (path : Path) : Except IoError Location := store.reach false path

def find (store : FileStore) (path : Path) : Except IoError Node :=
  match store.resolve path with
  | .error cause => .error cause
  | .ok location =>
    match store.node? location with
    | none => .error .notFound
    | some node => .ok node

def isFile (store : FileStore) (path : Path) : Bool :=
  match store.find path with
  | .ok (.regular _) => true
  | _ => false

def nameIn (dir : Location) : Location → Option String
  | name :: parent => if parent = dir then some name else none
  | [] => none

/-- The names in the directory at a path, in the order in which they were made, if the host lists
them. -/
def names (store : FileStore) (path : Path) : Except IoError (List String) :=
  match store.resolve path with
  | .error cause => .error cause
  | .ok location =>
    match store.node? location with
    | some .directory =>
      match store.refusal (.directory location) with
      | some cause => .error cause
      | none => .ok (store.entries.filterMap fun entry => nameIn location entry.1)
    | _ => .error .notADirectory

end FileStore

end EvidencePages

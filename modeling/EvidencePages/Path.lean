import EvidencePages.Text.Pieces

/-!
# Paths

A path is its text, kept exactly as it was given: `./x`, `t/` and `a//b` stay
as they are. Only the functions here look at its components. An empty
component and a `.` say nothing, except a leading `.` and a leading slash,
which belong to every path cut from this one.
-/

set_option autoImplicit false

namespace EvidencePages

structure Path where
  text : String
  deriving DecidableEq, Inhabited, Repr

namespace Path

def isBlank (component : String) : Bool := component = "" || component = "."

def isAbsolute (path : Path) : Bool := path.text.toList.head? = some '/'

def dropBlankEnd (components : List String) : List String :=
  (components.reverse.dropWhile isBlank).reverse

/-- The last component that says something, with what stands before it. -/
def lastComponent (path : Path) : Option (List String × String) :=
  match (Text.cut '/' path.text).reverse.dropWhile isBlank with
  | [] => none
  | last :: before => some (before.reverse, last)

/-- The final component with what stands before it; a path that ends in `..`, in its root or in
nothing names no file. -/
def located (path : Path) : Option (List String × String) :=
  match path.lastComponent with
  | none => none
  | some (before, name) => if name = ".." then none else some (before, name)

def ofPieces (pieces : List String) : Path := ⟨"/".intercalate pieces⟩

def fileName (path : Path) : Option String := path.located.map (·.2)

def directory (path : Path) : Path :=
  match path.lastComponent with
  | none => ⟨""⟩
  | some ([], _) => ⟨""⟩
  | some (first :: rest, _) =>
    if isBlank first then
      match dropBlankEnd rest with
      | [] => if first = "" then ⟨"/"⟩ else ⟨first⟩
      | kept => ofPieces (first :: kept)
    else ofPieces (dropBlankEnd (first :: rest))

/-- A file name cut at its last dot into stem and extension. A name that starts with its only dot,
or that has none, is all stem. -/
def splitName (name : String) : String × Option String :=
  match Text.cutLast '.' name.toList with
  | (none, _) => (name, none)
  | (some [], _) => (name, none)
  | (some stem, ext) => (String.ofList stem, some (String.ofList ext))

def extension (path : Path) : Option String :=
  path.fileName.bind fun name => (splitName name).2

/-- Whether nothing stands behind the final component, not even a slash. -/
def endsInName (path : Path) : Bool :=
  match (Text.cut '/' path.text).getLast? with
  | none => false
  | some last => !isBlank last

def renamed (name ext : String) : String :=
  if ext = "" then (splitName name).1 else (splitName name).1 ++ "." ++ ext

/-- The path whose final component has `ext` as its extension; a path that names no file stays as
it is. The old extension goes first, and of a path that ends in `..E01` that leaves one that ends
in `..` and names no file. -/
def withExtension (path : Path) (ext : String) : Path :=
  match path.located with
  | none => path
  | some (before, name) =>
    if (splitName name).1 = "." && path.endsInName then ofPieces (before ++ [".."])
    else ofPieces (before ++ [renamed name ext])

def join (dir : Path) (name : String) : Path :=
  if dir.text = "" then ⟨name⟩
  else if dir.text.toList.getLast? = some '/' then ⟨dir.text ++ name⟩
  else ⟨dir.text ++ "/" ++ name⟩

/-- What follows the last dot of the whole text, wherever that dot stands; empty without a dot. -/
def textAfterLastDot (path : Path) : String :=
  match Text.cutLast '.' path.text.toList with
  | (none, _) => ""
  | (some _, ext) => String.ofList ext

def components (path : Path) : List String :=
  match Text.cut '/' path.text with
  | [] => []
  | first :: rest =>
    let body := rest.filter (fun c => !isBlank c)
    if path.isAbsolute then "/" :: body
    else if first = "" then body
    else first :: body

def leComponents : List String → List String → Bool
  | [], _ => true
  | _ :: _, [] => false
  | a :: as, b :: bs => if a = b then leComponents as bs else decide (a < b)

def le (a b : Path) : Bool := leComponents a.components b.components

end Path

end EvidencePages

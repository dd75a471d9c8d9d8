import EvidencePages.Store.FileStore

/-!
# Changing a file store

Directories, files and links are made, and names taken away. A change that the
store does not allow gives none.
-/

set_option autoImplicit false

namespace EvidencePages.FileStore

def insert (store : FileStore) (location : Location) (node : Node) : FileStore :=
  { store with entries := store.entries ++ [(location, node)] }

def insertFile (store : FileStore) (location : Location) (bytes : ByteArray) : FileStore :=
  { store.insert location (.regular store.contents.size) with
    contents := store.contents.push bytes }

def makeDirectories (store : FileStore) (here : Location) : List String → Option FileStore
  | [] => some store
  | name :: rest =>
    match store.walkLinks false maxLinks here [name] with
    | .ok there =>
      if store.node? there = some .directory then store.makeDirectories there rest else none
    | .error .notFound =>
      if (store.node? (name :: here)).isSome then none
      else (store.insert (name :: here) .directory).makeDirectories (name :: here) rest
    | .error _ => none

def makeDirectory (store : FileStore) (path : Path) : Option FileStore :=
  if path.text = "" then some store
  else
    match store.makeDirectories (origin store.workingDirectory path) (steps path) with
    | none => none
    | some made =>
      match made.find path with
      | .ok .directory => some made
      | _ => none

def write (store : FileStore) (path : Path) (bytes : ByteArray) : Option FileStore :=
  match store.reach true path with
  | .error _ => none
  | .ok place =>
    match store.node? place with
    | none => some (store.insertFile place bytes)
    | some (.regular id) => some { store with contents := store.contents.set! id bytes }
    | some (.device _) => some store
    | some _ => none

/-- The place of a path's last name in its directory, whatever stands there. A path that asks for
a directory has no such name. -/
def place? (store : FileStore) (path : Path) : Option Location :=
  match (steps path).reverse with
  | [] => none
  | name :: before =>
    if name = "." ∨ name = ".." ∨ maxNameSize < name.utf8ByteSize then none
    else
      match store.walkFrom false path (before.reverse ++ ["."]) with
      | .error _ => none
      | .ok dir => some (name :: dir)

def makeLink (store : FileStore) (path target : Path) : Option FileStore :=
  match store.place? path with
  | none => none
  | some place =>
    if (pathFault? target).isSome ∨ (store.node? place).isSome then none
    else some (store.insert place (.link target))

def remove (store : FileStore) (path : Path) : Option FileStore :=
  match store.place? path with
  | none => none
  | some place =>
    match store.node? place with
    | none => none
    | some .directory => none
    | some _ => some { store with entries := store.entries.filter fun entry => entry.1 ≠ place }

end EvidencePages.FileStore

import EvidencePages.CommandLine.Run
import EvidencePages.Store.Changes

/-!
# The program

Copies what a command may look at from the host into a file store, runs the
command on it, and prints what it answers.
-/

set_option autoImplicit false

namespace EvidencePages.CommandLine

def copyFile (store : FileStore) (path : Path) : IO FileStore := do
  try
    let place := (← IO.currentDir) / path.text
    match (← place.metadata).type with
    | .file => return (store.write path (← IO.FS.readBinFile place)).getD store
    | .dir => return (store.makeDirectory path).getD store
    | _ => return store
  catch _ => return store

/-- Copies the entries of a directory, and what lies below them if `deep`. -/
partial def copyDirectory (deep : Bool) (store : FileStore) (dir : Path) : IO FileStore := do
  try
    let place := (← IO.currentDir) / dir.text
    let mut copied := (store.makeDirectory dir).getD store
    for entry in ← place.readDir do
      let path := dir.join entry.fileName
      if (← entry.path.symlinkMetadata).type == .dir then
        copied ←
          if deep then copyDirectory deep copied path
          else pure ((copied.makeDirectory path).getD copied)
      else copied ← copyFile copied path
    return copied
  catch _ => return store

/-- The paths that lead to `path`, itself included, from its shortest on. -/
def waypoints (path : Path) : List Path :=
  let names := Text.cut '/' path.text
  (List.range names.length).map fun count => .ofPieces (names.take (count + 1))

def emptyStore : IO FileStore := do
  let here := (← IO.currentDir).toString
  let store := (FileStore.blank.makeDirectory ⟨here⟩).getD .blank
  return { store with workingDirectory := ((Text.cut '/' here).filter (· ≠ "")).reverse }

/-- What a command may look at: the image, what lies beside it, what lies below it, and the
configuration file. -/
def copySource (source : Source) : IO FileStore := do
  let mut store ← emptyStore
  for path in waypoints source.image do
    store ← copyFile store path
  let beside := source.image.directory
  store ← copyDirectory false store (if beside.text = "" then ⟨"."⟩ else beside)
  store ← copyDirectory true store source.image
  match source.config with
  | none => return store
  | some path => (waypoints path).foldlM copyFile store

def execute (arguments : List String) : IO UInt32 := do
  let store ← match Request.ofArguments arguments with
    | .ok request => copySource request.source
    | .error _ => pure .blank
  let answer := run store arguments
  IO.print answer.output
  IO.eprint answer.complaint
  return UInt32.ofNat answer.code

end EvidencePages.CommandLine

def main (arguments : List String) : IO UInt32 := EvidencePages.CommandLine.execute arguments

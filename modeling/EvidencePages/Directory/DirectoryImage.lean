import EvidencePages.Paging.ByteGeometry
import EvidencePages.Store.Reading

/-!
# Directories as images

Every file below a directory is a page of its own. Links to files count as
files, and links to directories are not gone into. The files are listed once;
each is read when its page is asked for.
-/

set_option autoImplicit false

namespace EvidencePages

structure DirectoryImage where
  root : Path
  files : List Path

namespace DirectoryImage

/-- The names that lead from `root` down to a location below it. -/
def below? (root : Location) (location : Location) : Option (List String) :=
  if root.isSuffixOf location && location ≠ root then
    some (location.take (location.length - root.length)).reverse
  else none

def pathBelow (root : Path) (names : List String) : Path := names.foldl Path.join root

def canRead (store : FileStore) (root : Path) (location : Location) (names : List String) : Bool :=
  (FileStore.pathFault? (pathBelow root names)).isNone &&
    (List.range (names.length + 1)).all fun depth =>
      (store.refusal (.directory ((names.take depth).reverse ++ location))).isNone

def met? (store : FileStore) (root : Path) (location : Location) (entry : Location × Node) :
    Option (List String × Node) :=
  match below? location entry.1 with
  | none => none
  | some names =>
    if canRead store root location names.dropLast then some (names, entry.2) else none

def entriesBelow (store : FileStore) (root : Path) (location : Location) :
    List (List String × Node) :=
  store.entries.filterMap (met? store root location)

def file? (store : FileStore) (root : Path) : List String × Node → Option Path
  | (names, .regular _) => some (pathBelow root names)
  | (names, .link _) =>
    if store.isFile (pathBelow root names) then some (pathBelow root names) else none
  | _ => none

def unread? (store : FileStore) (root : Path) (location : Location) :
    List String × Node → Option Warning
  | (names, .directory) =>
    if canRead store root location names then none else some .unreadableEntry
  | _ => none

/-- A root that is a file itself is the only page. A root that is not there is skipped. -/
def scan (store : FileStore) (root : Path) : DirectoryImage × List Warning :=
  match store.resolve root with
  | .error _ => (⟨root, []⟩, [.unreadableEntry])
  | .ok location =>
    match store.node? location with
    | some (.regular _) => (⟨root, [root]⟩, [])
    | some .directory =>
      let entries := entriesBelow store root location
      (⟨root, entries.filterMap (file? store root)⟩,
        (([], .directory) :: entries).filterMap (unread? store root location))
    | _ => (⟨root, []⟩, [])

def count (image : DirectoryImage) : Nat := image.files.length

def first (image : DirectoryImage) : Cursor := .atFile 0 (image.count = 0)

def last (image : DirectoryImage) : Cursor := .atFile image.count true

def advance (image : DirectoryImage) (cursor : Cursor) : Cursor := cursor.stepFile image.count

def seek (image : DirectoryImage) (block : Nat) : Cursor × Nat :=
  let block := min block (image.count - 1)
  (.atFile block (image.count ≤ block), block)

def indexOf (image : DirectoryImage) (cursor : Cursor) : Nat :=
  min (cursor.fileIndex?.getD image.count) image.count

def fileAt (image : DirectoryImage) (cursor : Cursor) : Option Path :=
  image.files[image.indexOf cursor]?

def describe (image : DirectoryImage) (cursor : Cursor) : String :=
  match image.fileAt cursor with
  | some path => "File " ++ path.text
  | none => "End of " ++ image.root.text

def positionOf (image : DirectoryImage) (cursor : Cursor) : Position :=
  match image.fileAt cursor with
  | some path => .inFile path
  | none => .atOffset 0

def mappedContent (store : FileStore) (path : Path) : Except IoError ByteArray :=
  match store.openFile path with
  | .error cause => .error cause
  | .ok (.directory _) => .error .noSuchDevice
  | .ok handle => .ok (store.held handle)

def readPage (store : FileStore) (image : DirectoryImage) (cursor : Cursor) :
    Except ImageError (Option Page) :=
  match image.fileAt cursor with
  | none => .ok none
  | some path =>
    match mappedContent store path with
    | .error cause => .error (.read 0 (.map path cause))
    | .ok bytes => .ok (some (.ofFile path bytes))

end DirectoryImage

end EvidencePages

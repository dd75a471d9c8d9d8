import EvidencePages.Store.Reading
import EvidencePages.Store.Recency

/-!
# A pool of open handles

The parts of an image are many and the handles that may be open at once are
few. The pool opens a part when it is asked for, keeps the handle, and closes
the one used longest ago when it is full. It is full before the new handle is
there, so a part that cannot be opened still costs the oldest handle its place.
-/

set_option autoImplicit false

namespace EvidencePages

structure HandlePool where
  paths : List Path
  maxOpen : Nat
  handles : Recency.Entries Handle := []

namespace HandlePool

def ofPaths (paths : List Path) (maxOpen : Nat) : HandlePool := { paths, maxOpen }

/-- One handle may always be open. -/
def capacity (pool : HandlePool) : Nat := max 1 pool.maxOpen

def openCount (pool : HandlePool) : Nat := pool.handles.length

def fetch (store : FileStore) (pool : HandlePool) (index : Nat) :
    Except IoError Handle × HandlePool :=
  match pool.paths[index]? with
  | none => (.error (.indexOutOfRange index pool.paths.length), pool)
  | some path =>
    match Recency.find? pool.handles index with
    | some handle => (.ok handle, { pool with handles := Recency.touch pool.handles index handle })
    | none =>
      let kept := Recency.makeRoom pool.capacity pool.handles
      match store.openFile path with
      | .error cause => (.error cause, { pool with handles := kept })
      | .ok handle => (.ok handle, { pool with handles := (index, handle) :: kept })

end HandlePool

end EvidencePages

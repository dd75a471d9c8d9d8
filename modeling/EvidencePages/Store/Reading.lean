import EvidencePages.Store.FileStore

/-!
# Reading from a file store

An open handle goes on to its file, whatever becomes of the name. A positioned
read that the host does not refuse delivers at least one byte where any is
left, and how many more is the host's choice, `grant`. Reads are repeated until
a range is complete or nothing more comes, with their bytes joined or put into
a buffer.
-/

set_option autoImplicit false

namespace EvidencePages.FileStore

def content (store : FileStore) (id : Nat) : ByteArray := store.contents.getD id .empty

def openFile (store : FileStore) (path : Path) : Except IoError Handle :=
  match store.resolve path with
  | .error cause => .error cause
  | .ok location =>
    match store.node? location with
    | none => .error .notFound
    | some (.regular id) => .ok (.file id)
    | some (.device kind) => .ok (.device kind)
    | some _ => .ok (.directory location)

def length (store : FileStore) : Handle → Nat
  | .file id => (store.content id).size
  | .directory location => store.directoryLength location
  | .device _ => 0

/-- How many of the `available` bytes one read delivers. -/
def share (store : FileStore) (handle : Handle) (offset available : Nat) : Nat :=
  min available (max 1 (store.grant handle offset available))

/-- Offsets from here on are no file positions. -/
def offsetLimit : Nat := 1 <<< 63

def readFault? (store : FileStore) : Handle → Option IoError
  | .directory _ => some .isADirectory
  | handle => store.refusal handle

def portion (store : FileStore) (handle : Handle) (offset length : Nat) : ByteArray :=
  match handle with
  | .directory _ | .device .null => .empty
  | .device .zero => zeros (store.share handle offset length)
  | .file id =>
    let bytes := store.content id
    slice bytes offset (store.share handle offset (min length (bytes.size - offset)))

/-- One positioned read of at most `length` bytes; none is delivered only past the end. The range
that is asked for must end at a file position. -/
def readAt (store : FileStore) (handle : Handle) (offset length : Nat) : Except IoError ByteArray :=
  if offsetLimit ≤ offset + length then .error .invalidArgument
  else
    match store.readFault? handle with
    | some cause => .error cause
    | none => .ok (store.portion handle offset length)

/-- Positioned reads repeated until `length` bytes are there or one delivers nothing. -/
def readFull (store : FileStore) (handle : Handle) (offset length : Nat) :
    Except IoError ByteArray :=
  if length = 0 then .ok .empty
  else
    match store.readAt handle offset length with
    | .error cause => .error cause
    | .ok bytes =>
      if bytes.size = 0 then .ok .empty
      else
        match store.readFull handle (offset + bytes.size) (length - bytes.size) with
        | .error cause => .error cause
        | .ok rest => .ok (bytes ++ rest)
termination_by length

/-- The same reads into a buffer that has its first `filled` bytes from reads before: how many it
has in the end, and the buffer. -/
def fill (store : FileStore) (handle : Handle) (offset filled : Nat) (buffer : ByteArray) :
    Except IoError (Nat × ByteArray) :=
  if _more : filled < buffer.size then
    match store.readAt handle (offset + filled) (buffer.size - filled) with
    | .error cause => .error cause
    | .ok bytes =>
      if _none : bytes.size = 0 then .ok (filled, buffer)
      else store.fill handle offset (filled + bytes.size) (overwrite buffer filled bytes)
  else .ok (filled, buffer)
termination_by buffer.size - filled
decreasing_by
  rw [size_overwrite (Nat.le_of_lt _more)]
  omega

def held (store : FileStore) : Handle → ByteArray
  | .directory _ | .device _ => .empty
  | .file id => store.content id

def readAll (store : FileStore) (handle : Handle) : Except IoError ByteArray :=
  match store.readFault? handle with
  | some cause => .error cause
  | none => .ok (store.held handle)

end EvidencePages.FileStore

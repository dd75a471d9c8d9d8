import EvidencePages.Image.Image

/-!
# Walking over pages

A walk yields the pages of an image from the first to the last. A page that
cannot be read is yielded as an error and the walk goes on; a page that is not
there ends it.
-/

set_option autoImplicit false

namespace EvidencePages

structure PageWalk where
  image : Image
  cursor : Cursor

namespace PageWalk

def start (image : Image) : PageWalk := ⟨image, image.backend.first⟩

/-- The next page or error, if there is one, with the walk after it and the warnings logged. -/
def next (store : FileStore) (walk : PageWalk) :
    Option (Except ImageError Page) × PageWalk × List Warning :=
  if walk.cursor.atEnd then (none, walk, [])
  else
    let read := walk.image.readPage store walk.cursor
    let cursor := read.state.backend.advance walk.cursor
    match read.result with
    | .ok (some page) => (some (.ok page), ⟨read.state, cursor⟩, read.warnings)
    | .ok none => (none, ⟨read.state, read.state.backend.last⟩, read.warnings)
    | .error cause => (some (.error cause), ⟨read.state, cursor⟩, read.warnings)

def take (store : FileStore) :
    Nat → PageWalk → List (Except ImageError Page) × PageWalk × List Warning
  | 0, walk => ([], walk, [])
  | limit + 1, walk =>
    match next store walk with
    | (none, walk, warnings) => ([], walk, warnings)
    | (some page, walk, warnings) =>
      let (pages, walk, more) := take store limit walk
      (page :: pages, walk, warnings ++ more)

end PageWalk

/-- Totals over the pages of an image. A failure that is fatal leaves none. -/
structure WalkTotals where
  pages : Nat := 0
  bytes : Nat := 0
  readErrors : Nat := 0
  deriving DecidableEq, Repr

namespace WalkTotals

def add (a b : WalkTotals) : WalkTotals :=
  ⟨a.pages + b.pages, a.bytes + b.bytes, a.readErrors + b.readErrors⟩

def ofPage : Except ImageError (Option Page) → Except ImageError WalkTotals
  | .ok (some page) => .ok { pages := 1, bytes := page.activeLength }
  | .ok none => .ok {}
  | .error cause => if cause.isFatal then .error cause else .ok { readErrors := 1 }

/-- Steps the cursor from page to page until it is at the end or a page is not there, `limit`
steps at most. -/
def sequentialFrom (store : FileStore) : Nat → Image → Cursor → Except ImageError WalkTotals
  | 0, _, _ => .ok {}
  | limit + 1, image, cursor =>
    if cursor.atEnd then .ok {}
    else
      let read := image.readPage store cursor
      match read.result with
      | .ok none => .ok {}
      | result =>
        match ofPage result with
        | .error cause => .error cause
        | .ok here =>
          let next := read.state.backend.advance cursor
          (sequentialFrom store limit read.state next).map here.add

def sequential (store : FileStore) (image : Image) : Except ImageError WalkTotals :=
  sequentialFrom store image.blockCount image image.backend.first

def blockwiseFrom (store : FileStore) : Nat → Nat → Image → Except ImageError WalkTotals
  | 0, _, _ => .ok {}
  | count + 1, block, image =>
    let read := image.readBlock store block
    match ofPage read.result with
    | .error cause => .error cause
    | .ok here => (blockwiseFrom store count (block + 1) read.state).map here.add

def blockwise (store : FileStore) (image : Image) : Except ImageError WalkTotals :=
  blockwiseFrom store image.blockCount 0 image

end WalkTotals

end EvidencePages

import EvidencePages.Image.PageWalk
import EvidencePages.Json.Printed

/-!
# Reports

What the program prints about an image and about a walk over its pages, as
lines or as JSON.
-/

set_option autoImplicit false

namespace EvidencePages

namespace Segment

def toLine (segment : Segment) : String :=
  "segment:    " ++ segment.path.text ++ " @ " ++ toString segment.start ++ " ("
    ++ toString segment.length ++ " bytes)"

def toJson (segment : Segment) : Json.Value :=
  .ofFields [
    ("path", .ofText segment.path.text),
    ("start", .ofNat segment.start),
    ("length", .ofNat segment.length)]

end Segment

namespace ImageInfo

def toLines (info : ImageInfo) : List String :=
  [ "path:       " ++ info.path.text,
    "backend:    " ++ info.kind.name,
    "size:       " ++ toString info.size,
    "blocks:     " ++ toString info.blockCount ++ " x " ++ toString info.pageSize ++ " (+"
      ++ toString info.margin ++ " margin)" ]
    ++ info.segments.map Segment.toLine ++ info.details

def toJson (info : ImageInfo) : Json.Value :=
  .ofFields [
    ("kind", .ofText info.kind.name),
    ("path", .ofText info.path.text),
    ("size", .ofNat info.size),
    ("max_blocks", .ofNat info.blockCount),
    ("page_size", .ofNat info.pageSize),
    ("margin", .ofNat info.margin),
    ("segments", .array (info.segments.map Segment.toJson)),
    ("details", .array (info.details.map .ofText))]

end ImageInfo

namespace WalkTotals

def toLines (totals : WalkTotals) : List String :=
  [toString totals.pages ++ " pages, " ++ toString totals.bytes ++ " bytes, "
    ++ toString totals.readErrors ++ " read errors"]

def toJson (totals : WalkTotals) : Json.Value :=
  .ofFields [
    ("pages", .ofNat totals.pages),
    ("bytes", .ofNat totals.bytes),
    ("read_errors", .ofNat totals.readErrors)]

end WalkTotals

end EvidencePages

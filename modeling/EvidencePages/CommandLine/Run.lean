import EvidencePages.CommandLine.Report
import EvidencePages.CommandLine.Request

/-!
# Running a command

What the program answers to its arguments: what it prints, what it complains
about, and the code it ends with.
-/

set_option autoImplicit false

namespace EvidencePages.CommandLine

structure Answer where
  code : Nat
  output : String := ""
  complaint : String := ""
  deriving DecidableEq, Repr

namespace Source

/-- The configuration asked for: a file's or the default one, with what was given on the command
line in place of it. -/
def chosenConfig (store : FileStore) (source : Source) : Except ConfigError Config :=
  let base : Except ConfigError Config := match source.config with
    | none => .ok {}
    | some path => Config.ofFile store path
  match base with
  | .error cause => .error cause
  | .ok config =>
    .ok { config with
      pageSize := source.pageSize.getD config.pageSize
      margin := source.margin.getD config.margin
      reportReadErrors := !source.quietReadErrors && config.reportReadErrors }

def openImage (store : FileStore) (source : Source) : Except ImageError Image :=
  match source.chosenConfig store with
  | .error cause => .error (.invalidConfig cause)
  | .ok config => (Image.openPath store source.image source.recurse config).1

end Source

namespace Request

def source : Request → Source
  | .info source _ => source
  | .walk source _ _ => source

def ofLines (lines : List String) : String := String.join (lines.map (· ++ "\n"))

/-- What a request prints about an open image. One thread walks from page to page, and several
take the blocks one by one. -/
def report (store : FileStore) (image : Image) : Request → Except ImageError String
  | .info _ json =>
    .ok (if json then image.info.toJson.toText ++ "\n" else ofLines image.info.toLines)
  | .walk _ threads json =>
    let totals :=
      if 1 < threads then WalkTotals.blockwise store image else WalkTotals.sequential store image
    totals.map fun totals =>
      if json then totals.toJson.toText ++ "\n" else ofLines totals.toLines

def fatal (cause : ImageError) : Answer :=
  { code := 101, complaint := "fatal: " ++ cause.message ++ "\n" }

def answer (store : FileStore) (request : Request) : Answer :=
  match request.source.openImage store with
  | .error cause =>
    if cause.isFatal then fatal cause
    else { code := 1, complaint := programName ++ ": " ++ cause.message ++ "\n" }
  | .ok image =>
    match request.report store image with
    | .error cause => fatal cause
    | .ok output => { code := 0, output }

end Request

def Stop.answer : Stop → Answer
  | .help topic => { code := 0, output := Help.text topic }
  | .version => { code := 0, output := programName ++ " " ++ programVersion ++ "\n" }
  | .misuse cause =>
    { code := 2
      complaint := "error: " ++ cause.message ++ "\n\nFor more information, try '--help'.\n" }

def run (store : FileStore) (arguments : List String) : Answer :=
  match Request.ofArguments arguments with
  | .error stop => stop.answer
  | .ok request => request.answer store

end EvidencePages.CommandLine

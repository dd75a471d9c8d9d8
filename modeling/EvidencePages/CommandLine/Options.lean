/-!
# Command line options

The commands of the program, the options that each takes, and how they are
described.
-/

set_option autoImplicit false

namespace EvidencePages.CommandLine

inductive Command where
  | info
  | walk
  deriving DecidableEq, Repr

/-- What help can be asked for. -/
inductive Topic where
  | program
  | command (command : Command)
  | help
  deriving DecidableEq, Repr

inductive Switch where
  | recurse
  | verbose
  | pageSize
  | margin
  | config
  | quietReadErrors
  | threads
  | json
  | help
  | version
  deriving DecidableEq, Repr

namespace Command

def all : List Command := [.info, .walk]

def name : Command → String
  | .info => "info"
  | .walk => "walk"

def about : Command → String
  | .info => "Print size, geometry, parts and case metadata of an image"
  | .walk => "Read every page of an image and report totals"

def ofName? (name : String) : Option Command := all.find? fun command => command.name = name

def switches : Command → List Switch
  | .info =>
    [.recurse, .verbose, .pageSize, .margin, .config, .quietReadErrors, .json, .help]
  | .walk =>
    [.recurse, .verbose, .pageSize, .margin, .config, .quietReadErrors, .threads, .json, .help]

end Command

def programSwitches : List Switch := [.verbose, .help, .version]

def Topic.switches : Topic → List Switch
  | .program => programSwitches
  | .command chosen => chosen.switches
  | .help => []

namespace Switch

def long : Switch → String
  | .recurse => "recurse"
  | .verbose => "verbose"
  | .pageSize => "page-size"
  | .margin => "margin"
  | .config => "config"
  | .quietReadErrors => "quiet-read-errors"
  | .threads => "threads"
  | .json => "json"
  | .help => "help"
  | .version => "version"

def short? : Switch → Option Char
  | .recurse => some 'R'
  | .verbose => some 'v'
  | .help => some 'h'
  | .version => some 'V'
  | _ => none

/-- The name of the value that a switch takes. -/
def valueName? : Switch → Option String
  | .pageSize => some "BYTES"
  | .margin => some "BYTES"
  | .config => some "PATH"
  | .threads => some "THREADS"
  | _ => none

def takesValue (switch : Switch) : Bool := switch.valueName?.isSome

def about (topic : Topic) : Switch → String
  | .recurse => "Allow a directory to be read file by file"
  | .verbose => "Verbose logging with file and line information"
  | .pageSize => "Page size in bytes"
  | .margin => "Overlap appended to each page in bytes"
  | .config => "JSON file with an ImageConfig"
  | .quietReadErrors => "Do not log read errors as they happen"
  | .threads => "Worker threads; 1 walks sequentially with progress [default: 1]"
  | .json =>
    if topic = .command .walk then "Print the totals as JSON" else "Print the summary as JSON"
  | .help => "Print help"
  | .version => "Print version"

end Switch

end EvidencePages.CommandLine

import EvidencePages.CommandLine.Options

/-!
# Help texts

What the program is and does, for itself and for each command. Terms stand in
a column, with what is said about each in the next.
-/

set_option autoImplicit false

namespace EvidencePages.CommandLine

def programName : String := "imgpager"

def programVersion : String := "0.1.0"

def programAbout : String :=
  "imgpager - paged, provenance-tagged access to raw, split, EWF and directory forensic images"

def helpAbout : String := "Print this message or the help of the given subcommand(s)"

namespace Help

def padded (width : Nat) (term : String) : String :=
  String.ofList (term.toList.rightpad width ' ')

def columns (rows : List (String × String)) : List String :=
  let width := rows.foldl (fun width row => max width row.1.length) 0
  rows.map fun (term, about) => "  " ++ padded width term ++ "  " ++ about

def term (switch : Switch) : String :=
  let short := match switch.short? with
    | some c => String.ofList ['-', c, ',', ' ']
    | none => "    "
  let value := match switch.valueName? with
    | some name => " <" ++ name ++ ">"
    | none => ""
  short ++ "--" ++ switch.long ++ value

def switchRows (topic : Topic) : List (String × String) :=
  topic.switches.map fun switch => (term switch, switch.about topic)

def commandRows : List (String × String) :=
  Command.all.map (fun command => (command.name, command.about)) ++ [("help", helpAbout)]

def about : Topic → String
  | .program => programAbout
  | .command command => command.about
  | .help => helpAbout

def usage : Topic → String
  | .program => "Usage: " ++ programName ++ " [OPTIONS] <COMMAND>"
  | .command command => "Usage: " ++ programName ++ " " ++ command.name ++ " [OPTIONS] <IMAGE>"
  | .help => "Usage: " ++ programName ++ " help [COMMAND]..."

def tables (topic : Topic) : List (String × List (String × String)) :=
  match topic with
  | .program => [("Commands:", commandRows), ("Options:", switchRows topic)]
  | .command _ => [
      ("Arguments:", [("<IMAGE>", "Image file, first split part, E01 file or directory")]),
      ("Options:", switchRows topic)]
  | .help => [("Arguments:", [("[COMMAND]...", "Print help for the subcommand(s)")])]

def lines (topic : Topic) : List String :=
  [about topic, "", usage topic]
    ++ (tables topic).flatMap fun (title, rows) => "" :: title :: columns rows

def text (topic : Topic) : String := String.join ((lines topic).map (· ++ "\n"))

end Help

end EvidencePages.CommandLine

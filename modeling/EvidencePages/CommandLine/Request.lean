import EvidencePages.CommandLine.Help
import EvidencePages.Config.Text

/-!
# Requests

What the arguments of the program ask for. They are read from left to right:
the first that cannot be understood, or that asks for help or the version,
settles it.
-/

set_option autoImplicit false

namespace EvidencePages.CommandLine

inductive Misuse where
  | unknownArgument (argument : String)
  | missingValue (switch : Switch)
  | unwantedValue (switch : Switch)
  | repeated (switch : Switch)
  | invalidValue (term value : String)
  | unknownCommand (name : String)
  | missingCommand
  | missingImage
  deriving DecidableEq, Repr

def Misuse.message : Misuse → String
  | .unknownArgument argument => "unexpected argument '" ++ argument ++ "' found"
  | .missingValue switch =>
    "a value is required for '--" ++ switch.long ++ "' but none was supplied"
  | .unwantedValue switch =>
    "unexpected value for '--" ++ switch.long ++ "' found; no more were expected"
  | .repeated switch => "the argument '--" ++ switch.long ++ "' cannot be used multiple times"
  | .invalidValue term value => "invalid value '" ++ value ++ "' for '" ++ term ++ "'"
  | .unknownCommand name => "unrecognized subcommand '" ++ name ++ "'"
  | .missingCommand => "'" ++ programName ++ "' requires a subcommand but one was not provided"
  | .missingImage => "the following required arguments were not provided: <IMAGE>"

/-- Why the arguments lead to no command. -/
inductive Stop where
  | help (topic : Topic)
  | version
  | misuse (cause : Misuse)
  deriving DecidableEq, Repr

structure Source where
  image : Path
  recurse : Bool
  pageSize : Option Nat
  margin : Option Nat
  config : Option Path
  quietReadErrors : Bool
  deriving DecidableEq, Repr

inductive Request where
  | info (source : Source) (json : Bool)
  | walk (source : Source) (threads : Nat) (json : Bool)
  deriving DecidableEq, Repr

/-! ## Single arguments -/

inductive Argument where
  | plain
  | endOfSwitches
  | long (name : List Char) (value : Option (List Char))
  | short (letters : List Char)
  deriving DecidableEq, Repr

def Argument.ofText (text : List Char) : Argument :=
  match text with
  | ['-', '-'] => .endOfSwitches
  | '-' :: '-' :: rest =>
    match rest.dropWhile (· ≠ '=') with
    | [] => .long rest none
    | _ :: value => .long (rest.takeWhile (· ≠ '=')) (some value)
  | '-' :: c :: rest => .short (c :: rest)
  | _ => .plain

def count? (text : List Char) : Option Nat :=
  let digits := match text with
    | '+' :: rest => rest
    | text => text
  if digits = [] then none else Setting.count? digits

def Switch.accepts (switch : Switch) (value : String) : Bool :=
  match switch with
  | .config => value ≠ ""
  | .pageSize | .margin | .threads => (count? value.toList).isSome
  | _ => true

/-! ## All arguments -/

/-- What has been given so far, with an empty value for a switch that takes none. -/
structure Given where
  switches : List (Switch × String) := []
  image : Option String := none

namespace Given

def has (given : Given) (switch : Switch) : Bool := (given.switches.lookup switch).isSome

def count (given : Given) (switch : Switch) : Option Nat :=
  (given.switches.lookup switch).bind fun value => count? value.toList

def add (topic : Topic) (given : Given) (switch : Switch) (value : String) : Except Stop Given :=
  match switch with
  | .help => .error (.help topic)
  | .version => .error .version
  | _ =>
    if given.has switch then .error (.misuse (.repeated switch))
    else if switch.accepts value then
      .ok { given with switches := (switch, value) :: given.switches }
    else .error (.misuse (.invalidValue (Help.term switch) value))

def addLetters (topic : Topic) (given : Given) : List Char → Except Stop Given
  | [] => .ok given
  | letter :: rest =>
    match topic.switches.find? fun switch => switch.short? = some letter with
    | none => .error (.misuse (.unknownArgument (String.ofList ['-', letter])))
    | some switch =>
      match given.add topic switch "" with
      | .error stop => .error stop
      | .ok given => given.addLetters topic rest

def addImage (given : Given) (image : String) : Except Stop Given :=
  if given.image.isSome then .error (.misuse (.unknownArgument image))
  else if image = "" then .error (.misuse (.invalidValue "<IMAGE>" image))
  else .ok { given with image := some image }

def addImages (given : Given) : List String → Except Stop Given
  | [] => .ok given
  | image :: rest =>
    match given.addImage image with
    | .error stop => .error stop
    | .ok given => given.addImages rest

/-- Reads arguments, the first of them as the value of the switch that waits for one. -/
def read (topic : Topic) : Option Switch → Given → List String → Except Stop Given
  | none, given, [] => .ok given
  | some switch, _, [] => .error (.misuse (.missingValue switch))
  | some switch, given, value :: rest =>
    if Argument.ofText value.toList = .plain then
      match given.add topic switch value with
      | .error stop => .error stop
      | .ok given => read topic none given rest
    else .error (.misuse (.missingValue switch))
  | none, given, argument :: rest =>
    match Argument.ofText argument.toList with
    | .plain =>
      match given.addImage argument with
      | .error stop => .error stop
      | .ok given => read topic none given rest
    | .endOfSwitches => given.addImages rest
    | .short letters =>
      match given.addLetters topic letters with
      | .error stop => .error stop
      | .ok given => read topic none given rest
    | .long name value =>
      match topic.switches.find? fun switch => switch.long.toList = name with
      | none => .error (.misuse (.unknownArgument argument))
      | some switch =>
        match switch.takesValue, value with
        | true, none => read topic (some switch) given rest
        | false, some _ => .error (.misuse (.unwantedValue switch))
        | _, value =>
          match given.add topic switch (String.ofList (value.getD [])) with
          | .error stop => .error stop
          | .ok given => read topic none given rest

def source? (given : Given) : Option Source :=
  given.image.map fun image => {
    image := ⟨image⟩
    recurse := given.has .recurse
    pageSize := given.count .pageSize
    margin := given.count .margin
    config := (given.switches.lookup .config).map Path.mk
    quietReadErrors := given.has .quietReadErrors }

end Given

namespace Request

def ofCommand (command : Command) (arguments : List String) : Except Stop Request :=
  match Given.read (.command command) none {} arguments with
  | .error stop => .error stop
  | .ok given =>
    match given.source? with
    | none => .error (.misuse .missingImage)
    | some source =>
      match command with
      | .info => .ok (.info source (given.has .json))
      | .walk => .ok (.walk source ((given.count .threads).getD 1) (given.has .json))

/-- What `help` with these arguments asks for. -/
def helpOn : List String → Stop
  | [] => .help .program
  | [name] =>
    if name = "help" then .help .help
    else
      match Command.ofName? name with
      | none => .misuse (.unknownCommand name)
      | some command => .help (.command command)
  | _ :: name :: _ => .misuse (.unknownCommand name)

def isSwitch (argument : String) : Bool :=
  match Argument.ofText argument.toList with
  | .short _ | .long _ _ => true
  | _ => false

def ofArguments (arguments : List String) : Except Stop Request :=
  match Given.read .program none {} (arguments.takeWhile isSwitch) with
  | .error stop => .error stop
  | .ok _ =>
    match arguments.dropWhile isSwitch with
    | [] => .error (.misuse .missingCommand)
    | name :: rest =>
      if name = "help" then .error (helpOn rest)
      else
        match Command.ofName? name with
        | none => .error (.misuse (.unknownCommand name))
        | some command => ofCommand command rest

end Request

end EvidencePages.CommandLine

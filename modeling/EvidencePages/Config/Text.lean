import EvidencePages.Config
import EvidencePages.Json.Value
import EvidencePages.Store.Reading

/-!
# Configuration text

A configuration is written as a JSON object or, by position, as an array.
What is left out has its default, members of unknown names say nothing, and a
member that is known may stand once. Sizes and counts are plain integers
below 2⁶⁴.
-/

set_option autoImplicit false

namespace EvidencePages

inductive Setting where
  | pageSize
  | margin
  | reportReadErrors
  | maxOpenFiles
  deriving DecidableEq, Repr

namespace Setting

def all : List Setting := [.pageSize, .margin, .reportReadErrors, .maxOpenFiles]

def name : Setting → String
  | .pageSize => "page_size"
  | .margin => "margin"
  | .reportReadErrors => "report_read_errors"
  | .maxOpenFiles => "max_open_files"

def ofName? (name : List Char) : Option Setting :=
  all.find? fun setting => setting.name.toList = name

def decimal (digits : List Char) : Nat :=
  digits.foldl (fun value c => value * 10 + (c.toNat - '0'.toNat)) 0

def count? (literal : List Char) : Option Nat :=
  if literal.all Json.Token.isDigit && decimal literal < Config.sizeLimit then
    some (decimal literal)
  else none

def apply (setting : Setting) (value : Json.Value) (config : Config) : Option Config :=
  match setting, value with
  | .pageSize, .number literal => (count? literal).map ({ config with pageSize := · })
  | .margin, .number literal => (count? literal).map ({ config with margin := · })
  | .maxOpenFiles, .number literal => (count? literal).map ({ config with maxOpenFiles := · })
  | .reportReadErrors, .bool value => some { config with reportReadErrors := value }
  | _, _ => none

end Setting

namespace Config

/-- The settings of an array, one after the other, as many as it has. -/
def ofItems (config : Config) : List Setting → List Json.Value → Option Config
  | _, [] => some config
  | [], _ :: _ => none
  | setting :: settings, item :: items =>
    (setting.apply item config).bind (ofItems · settings items)

/-- The settings of an object, with those that it has named already. A name must be text, even an
unknown one. -/
def ofMembers (config : Config) (named : List Setting) :
    List (List Nat × Json.Value) → Option Config
  | [] => some config
  | (codes, value) :: members =>
    match Text.ofCodes? codes with
    | none => none
    | some name =>
      match Setting.ofName? name with
      | none => config.ofMembers named members
      | some setting =>
        if named.contains setting then none
        else (setting.apply value config).bind (ofMembers · (setting :: named) members)

def ofValue? : Json.Value → Option Config
  | .array items => ofItems {} Setting.all items
  | .object members => ofMembers {} [] members
  | _ => none

/-- The configuration that a text says, if it is a valid one. -/
def ofText (text : List Char) : Except ConfigError Config :=
  match (Json.Value.ofText? text).bind ofValue? with
  | none => .error .malformedJson
  | some config =>
    match config.validate with
    | .error cause => .error cause
    | .ok () => .ok config

def readText (store : FileStore) (path : Path) : Except IoError String :=
  match store.openFile path with
  | .error cause => .error cause
  | .ok handle =>
    match store.readAll handle with
    | .error cause => .error cause
    | .ok bytes =>
      match String.fromUTF8? bytes with
      | none => .error .notUtf8
      | some text => .ok text

def ofFile (store : FileStore) (path : Path) : Except ConfigError Config :=
  match readText store path with
  | .error cause => .error (.unreadable path cause)
  | .ok text => ofText text.toList

end Config

end EvidencePages

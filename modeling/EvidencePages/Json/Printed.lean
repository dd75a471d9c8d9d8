import EvidencePages.Json.Value

/-!
# Printed JSON

A value is printed over several lines, two blanks deeper for each array or
object around it. An empty array or object takes two brackets. Only quotes,
backslashes, control characters and halves of surrogate pairs are escaped.
-/

set_option autoImplicit false

namespace EvidencePages.Json

namespace Value

def ofNat (n : Nat) : Value := .number (Nat.toDigits 10 n)

def ofText (text : String) : Value := .string (text.toList.map Char.toNat)

def ofFields (fields : List (String × Value)) : Value :=
  .object (fields.map fun (name, value) => (name.toList.map Char.toNat, value))

/-! ## Strings -/

def hexDigits (n : Nat) : List Char := (Nat.toDigits 16 n).leftpad 4 '0'

def printedCode (code : Nat) : List Char :=
  if code = 0x22 then ['\\', '"']
  else if code = 0x5C then ['\\', '\\']
  else if code = 0x08 then ['\\', 'b']
  else if code = 0x0C then ['\\', 'f']
  else if code = 0x0A then ['\\', 'n']
  else if code = 0x0D then ['\\', 'r']
  else if code = 0x09 then ['\\', 't']
  else if code < 0x20 || Text.isHighSurrogate code || Text.isLowSurrogate code then
    '\\' :: 'u' :: hexDigits code
  else [Char.ofNat code]

def printedString (codes : List Nat) : List Char := '"' :: codes.flatMap printedCode ++ ['"']

/-! ## Layout -/

def newLine (depth : Nat) : List Char := '\n' :: List.replicate (2 * depth) ' '

def bracketed (opening closing : Char) (depth : Nat) : List (List Char) → List Char
  | [] => [opening, closing]
  | first :: rest =>
    opening :: newLine (depth + 1) ++ first
      ++ rest.flatMap (fun item => ',' :: newLine (depth + 1) ++ item)
      ++ newLine depth ++ [closing]

mutual

def printed (depth : Nat) : Value → List Char
  | .null => ['n', 'u', 'l', 'l']
  | .bool true => ['t', 'r', 'u', 'e']
  | .bool false => ['f', 'a', 'l', 's', 'e']
  | .number literal => literal
  | .string codes => printedString codes
  | .array items => bracketed '[' ']' depth (printedItems (depth + 1) items)
  | .object members => bracketed '\x7b' '\x7d' depth (printedMembers (depth + 1) members)

def printedItems (depth : Nat) : List Value → List (List Char)
  | [] => []
  | item :: rest => printed depth item :: printedItems depth rest

def printedMembers (depth : Nat) : List (List Nat × Value) → List (List Char)
  | [] => []
  | (name, value) :: rest =>
    (printedString name ++ ':' :: ' ' :: printed depth value) :: printedMembers depth rest

end

def toText (value : Value) : String := String.ofList (printed 0 value)

end Value

end EvidencePages.Json

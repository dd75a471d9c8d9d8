import EvidencePages.Json.Token

/-!
# JSON values

A value is read off its tokens in one pass, with a stack of the arrays and
objects that are still open. What an object says twice is kept twice.
-/

set_option autoImplicit false

namespace EvidencePages.Json

inductive Value where
  | null
  | bool (value : Bool)
  | number (literal : List Char)
  | string (codes : List Nat)
  | array (items : List Value)
  | object (members : List (List Nat × Value))

/-- An open array or object: what it holds so far, last first, and the name of the member being
read. -/
inductive Open where
  | array (items : List Value)
  | object (members : List (List Nat × Value)) (name : List Nat)

inductive Expecting where
  | value
  | itemOrEnd
  | memberOrEnd (members : List (List Nat × Value))
  | member (members : List (List Nat × Value))
  | colon (members : List (List Nat × Value)) (name : List Nat)
  | afterValue (value : Value)

namespace Value

def scalar? : Token → Option Value
  | .null => some .null
  | .bool value => some (.bool value)
  | .number literal => some (.number literal)
  | .string codes => some (.string codes)
  | _ => none

/-- Reads the first token of a value. -/
def start? (opened : List Open) : Token → Option (Expecting × List Open)
  | .openArray => some (.itemOrEnd, .array [] :: opened)
  | .openObject => some (.memberOrEnd [], opened)
  | token => (scalar? token).map fun value => (.afterValue value, opened)

def step? : Expecting → List Open → Token → Option (Expecting × List Open)
  | .value, opened, token => start? opened token
  | .itemOrEnd, .array _ :: opened, .closeArray => some (.afterValue (.array []), opened)
  | .itemOrEnd, opened, token => start? opened token
  | .memberOrEnd _, opened, .closeObject => some (.afterValue (.object []), opened)
  | .memberOrEnd members, opened, .string name => some (.colon members name, opened)
  | .member members, opened, .string name => some (.colon members name, opened)
  | .colon members name, opened, .colon => some (.value, .object members name :: opened)
  | .afterValue value, .array items :: opened, .comma =>
    some (.value, .array (value :: items) :: opened)
  | .afterValue value, .array items :: opened, .closeArray =>
    some (.afterValue (.array (value :: items).reverse), opened)
  | .afterValue value, .object members name :: opened, .comma =>
    some (.member ((name, value) :: members), opened)
  | .afterValue value, .object members name :: opened, .closeObject =>
    some (.afterValue (.object ((name, value) :: members).reverse), opened)
  | _, _, _ => none

def read? : Expecting → List Open → List Token → Option Value
  | .afterValue value, [], [] => some value
  | _, _, [] => none
  | expecting, opened, token :: rest =>
    match step? expecting opened token with
    | none => none
    | some (expecting, opened) => read? expecting opened rest

def ofTokens? (tokens : List Token) : Option Value := read? .value [] tokens

def ofText? (text : List Char) : Option Value := (Token.ofText? text).bind ofTokens?

end Value

end EvidencePages.Json

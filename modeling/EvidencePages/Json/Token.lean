import EvidencePages.Text.Decode

/-!
# Tokens of JSON text

Strict JSON is cut into tokens: brackets, separators, words, numbers and
strings, with white space between them. A number keeps its literal. A string
is the list of codes that it spells: a character by its code point and a `\u`
escape by its number, so an escape may spell half of a surrogate pair.
-/

set_option autoImplicit false

namespace EvidencePages.Json

inductive Token where
  | openArray
  | closeArray
  | openObject
  | closeObject
  | comma
  | colon
  | null
  | bool (value : Bool)
  | number (literal : List Char)
  | string (codes : List Nat)
  deriving DecidableEq, Repr

namespace Token

def isBlank (c : Char) : Bool := c = ' ' || c = '\n' || c = '\t' || c = '\r'

/-! ## Strings -/

def hexDigit? (c : Char) : Option Nat :=
  if '0' ≤ c ∧ c ≤ '9' then some (c.toNat - '0'.toNat)
  else if 'a' ≤ c ∧ c ≤ 'f' then some (c.toNat - 'a'.toNat + 10)
  else if 'A' ≤ c ∧ c ≤ 'F' then some (c.toNat - 'A'.toNat + 10)
  else none

def hexNumber? (a b c d : Char) : Option Nat :=
  match hexDigit? a, hexDigit? b, hexDigit? c, hexDigit? d with
  | some a, some b, some c, some d => some (((a * 16 + b) * 16 + c) * 16 + d)
  | _, _, _, _ => none

def escaped? : Char → Option Nat
  | '"' => some 0x22
  | '\\' => some 0x5C
  | '/' => some 0x2F
  | 'b' => some 0x08
  | 'f' => some 0x0C
  | 'n' => some 0x0A
  | 'r' => some 0x0D
  | 't' => some 0x09
  | _ => none

/-- Control characters stand in strings only as escapes. -/
def isPlain (c : Char) : Bool := c ≠ '"' && c ≠ '\\' && 0x20 ≤ c.toNat

/-- The codes up to the closing quote, and what follows it. -/
def stringBody : List Char → Option (List Nat × List Char)
  | [] => none
  | '"' :: rest => some ([], rest)
  | '\\' :: 'u' :: a :: b :: c :: d :: rest =>
    match hexNumber? a b c d with
    | none => none
    | some code => (stringBody rest).map fun (codes, rest) => (code :: codes, rest)
  | '\\' :: letter :: rest =>
    match escaped? letter with
    | none => none
    | some code => (stringBody rest).map fun (codes, rest) => (code :: codes, rest)
  | c :: rest =>
    if isPlain c then (stringBody rest).map fun (codes, rest) => (c.toNat :: codes, rest)
    else none

theorem length_of_stringBody {text rest : List Char} {codes : List Nat}
    (h : stringBody text = some (codes, rest)) : rest.length < text.length := by
  fun_induction stringBody text generalizing codes rest with
  | case1 => simp at h
  | case2 tail =>
    simp only [Option.some.injEq, Prod.mk.injEq] at h
    simp [h.2]
  | case3 => simp at h
  | case4 a b c d tail code _ ih =>
    obtain ⟨⟨found, after⟩, hb, he⟩ := Option.map_eq_some_iff.1 h
    have := ih hb
    simp only [Prod.mk.injEq] at he
    simp only [List.length_cons, ← he.2]
    omega
  | case5 => simp at h
  | case6 letter tail _ code _ ih =>
    obtain ⟨⟨found, after⟩, hb, he⟩ := Option.map_eq_some_iff.1 h
    have := ih hb
    simp only [Prod.mk.injEq] at he
    simp only [List.length_cons, ← he.2]
    omega
  | case7 c tail _ _ _ _ ih =>
    obtain ⟨⟨found, after⟩, hb, he⟩ := Option.map_eq_some_iff.1 h
    have := ih hb
    simp only [Prod.mk.injEq] at he
    simp only [List.length_cons, ← he.2]
    omega
  | case8 => simp at h

/-! ## Numbers -/

def isDigit (c : Char) : Bool := '0' ≤ c && c ≤ '9'

def digitsAfter (lead text : List Char) : List Char :=
  match text.takeWhile isDigit with
  | [] => []
  | digits => lead ++ digits

/-- The whole part of a number: a zero, or digits of which the first is none. -/
def wholePart : List Char → List Char
  | '0' :: _ => ['0']
  | text => text.takeWhile isDigit

def fractionPart : List Char → List Char
  | '.' :: rest => digitsAfter ['.'] rest
  | _ => []

def isExponentMark (c : Char) : Bool := c = 'e' || c = 'E'

def isSign (c : Char) : Bool := c = '+' || c = '-'

def exponentPart : List Char → List Char
  | [] => []
  | mark :: rest =>
    if isExponentMark mark then
      match rest with
      | [] => []
      | sign :: digits =>
        if isSign sign then digitsAfter [mark, sign] digits else digitsAfter [mark] rest
    else []

def signPart : List Char → List Char
  | '-' :: _ => ['-']
  | _ => []

def number? (text : List Char) : Option (List Char) :=
  let sign := signPart text
  let whole := wholePart (text.drop sign.length)
  if whole = [] then none
  else
    let integer := sign ++ whole
    let decimal := integer ++ fractionPart (text.drop integer.length)
    some (decimal ++ exponentPart (text.drop decimal.length))

theorem length_number?_pos {text literal : List Char} (h : number? text = some literal) :
    0 < literal.length := by
  simp only [number?] at h
  split at h
  · simp at h
  · rename_i hw
    have := List.length_pos_iff.2 hw
    simp only [Option.some.injEq] at h
    rw [← h]
    simp only [List.length_append]
    omega

/-! ## All tokens -/

def next? (text : List Char) : Option (Token × List Char) :=
  match text with
  | '[' :: rest => some (.openArray, rest)
  | ']' :: rest => some (.closeArray, rest)
  | '\x7b' :: rest => some (.openObject, rest)
  | '\x7d' :: rest => some (.closeObject, rest)
  | ',' :: rest => some (.comma, rest)
  | ':' :: rest => some (.colon, rest)
  | '"' :: rest => (stringBody rest).map fun (codes, rest) => (.string codes, rest)
  | 'n' :: 'u' :: 'l' :: 'l' :: rest => some (.null, rest)
  | 't' :: 'r' :: 'u' :: 'e' :: rest => some (.bool true, rest)
  | 'f' :: 'a' :: 'l' :: 's' :: 'e' :: rest => some (.bool false, rest)
  | text => (number? text).map fun literal => (.number literal, text.drop literal.length)

theorem length_of_next? {text rest : List Char} {token : Token}
    (h : next? text = some (token, rest)) : rest.length < text.length := by
  unfold next? at h
  split at h
  case h_7 tail =>
    obtain ⟨⟨codes, after⟩, hb, he⟩ := Option.map_eq_some_iff.1 h
    have := length_of_stringBody hb
    simp only [Prod.mk.injEq] at he
    simp only [List.length_cons, ← he.2]
    omega
  case h_11 =>
    obtain ⟨literal, hn, he⟩ := Option.map_eq_some_iff.1 h
    have := length_number?_pos hn
    simp only [Prod.mk.injEq] at he
    rw [← he.2, List.length_drop]
    cases text with
    | nil => simp [number?, signPart, wholePart] at hn
    | cons c tail =>
      simp only [List.length_cons]
      omega
  all_goals
    simp only [Option.some.injEq, Prod.mk.injEq] at h
    simp only [List.length_cons, ← h.2]
    omega

def ofText? (text : List Char) : Option (List Token) :=
  match text with
  | [] => some []
  | c :: rest =>
    if isBlank c then ofText? rest
    else
      match _found : next? (c :: rest) with
      | none => none
      | some (token, rest) => (ofText? rest).map (token :: ·)
termination_by text.length
decreasing_by
  · simp
  · exact length_of_next? _found

end Token

end EvidencePages.Json

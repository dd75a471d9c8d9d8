import EvidencePages.Json.Value

/-!
# The grammar of JSON text

What it is for a text to be written for a value, with no regard to how it is
read. White space may stand around each value, name and separator. A character
of a string may stand for itself or be escaped, and a number is written as it
is kept.
-/

set_option autoImplicit false

namespace EvidencePages.Json

def Blank (gap : List Char) : Prop := ∀ c ∈ gap, c = ' ' ∨ c = '\n' ∨ c = '\t' ∨ c = '\r'

/-! ## Strings -/

inductive HexDigit : Char → Nat → Prop
  | digit {n : Nat} (h : n < 10) : HexDigit (Char.ofNat (0x30 + n)) n
  | upper {n : Nat} (h : n < 6) : HexDigit (Char.ofNat (0x41 + n)) (10 + n)
  | lower {n : Nat} (h : n < 6) : HexDigit (Char.ofNat (0x61 + n)) (10 + n)

def escapes : List (Char × Nat) :=
  [('"', 0x22), ('\\', 0x5C), ('/', 0x2F), ('b', 0x08), ('f', 0x0C), ('n', 0x0A), ('r', 0x0D),
    ('t', 0x09)]

inductive SpelledCode : Nat → List Char → Prop
  | plain {c : Char} (quote : c ≠ '"') (backslash : c ≠ '\\') (visible : 0x20 ≤ c.toNat) :
    SpelledCode c.toNat [c]
  | escape {letter : Char} {code : Nat} (listed : (letter, code) ∈ escapes) :
    SpelledCode code ['\\', letter]
  | number {a b c d : Char} {w x y z : Nat} (first : HexDigit a w) (second : HexDigit b x)
    (third : HexDigit c y) (fourth : HexDigit d z) :
    SpelledCode (((w * 16 + x) * 16 + y) * 16 + z) ['\\', 'u', a, b, c, d]

/-- The text between the quotes of a string. -/
inductive Spelled : List Nat → List Char → Prop
  | nil : Spelled [] []
  | cons {code : Nat} {codes : List Nat} {piece text : List Char} (first : SpelledCode code piece)
    (rest : Spelled codes text) : Spelled (code :: codes) (piece ++ text)

theorem Spelled.append {codes more : List Nat} {text rest : List Char}
    (spelled : Spelled codes text) (behind : Spelled more rest) :
    Spelled (codes ++ more) (text ++ rest) := by
  induction spelled with
  | nil => exact behind
  | cons first _ ih =>
    rw [List.cons_append, List.append_assoc]
    exact .cons first ih

theorem spelled_of_plain (text : List Char)
    (plain : text.all (fun c => c ≠ '"' && c ≠ '\\' && 0x20 ≤ c.toNat) = true) :
    Spelled (text.map Char.toNat) text := by
  induction text with
  | nil => exact .nil
  | cons c text ih =>
    simp only [List.all_cons, Bool.and_eq_true, decide_eq_true_eq] at plain
    obtain ⟨⟨⟨quote, backslash⟩, visible⟩, others⟩ := plain
    exact .cons (.plain quote backslash visible) (ih others)

/-! ## Numbers -/

def Digit (c : Char) : Prop := '0' ≤ c ∧ c ≤ '9'

instance (c : Char) : Decidable (Digit c) := inferInstanceAs (Decidable (_ ∧ _))

theorem Digit.ne {c other : Char} (digit : Digit c) (not_digit : ¬Digit other) : c ≠ other :=
  fun same => not_digit (same ▸ digit)

def Digits (text : List Char) : Prop := text ≠ [] ∧ ∀ c ∈ text, Digit c

/-- A zero stands alone and leads no other digits. -/
inductive Whole : List Char → Prop
  | zero : Whole ['0']
  | digits {text : List Char} (digits : Digits text) (lead : text.head? ≠ some '0') : Whole text

inductive Fraction : List Char → Prop
  | none : Fraction []
  | digits {text : List Char} (digits : Digits text) : Fraction ('.' :: text)

inductive Exponent : List Char → Prop
  | none : Exponent []
  | digits {mark : Char} {sign text : List Char} (mark_eq : mark = 'e' ∨ mark = 'E')
    (sign_eq : sign = [] ∨ sign = ['+'] ∨ sign = ['-']) (digits : Digits text) :
    Exponent (mark :: sign ++ text)

inductive Numeral : List Char → Prop
  | parts {sign whole fraction exponent : List Char} (sign_eq : sign = [] ∨ sign = ['-'])
    (isWhole : Whole whole) (isFraction : Fraction fraction) (isExponent : Exponent exponent) :
    Numeral (sign ++ whole ++ fraction ++ exponent)

/-! ## Values -/

mutual

inductive Written : Value → List Char → Prop
  | null : Written .null ['n', 'u', 'l', 'l']
  | true : Written (.bool true) ['t', 'r', 'u', 'e']
  | false : Written (.bool false) ['f', 'a', 'l', 's', 'e']
  | number {literal : List Char} (numeral : Numeral literal) : Written (.number literal) literal
  | string {codes : List Nat} {text : List Char} (spelled : Spelled codes text) :
    Written (.string codes) ('"' :: text ++ ['"'])
  | emptyArray {gap : List Char} (blank : Blank gap) : Written (.array []) ('[' :: gap ++ [']'])
  | array {items : List Value} {text : List Char} (listed : WrittenItems items text) :
    Written (.array items) ('[' :: text ++ [']'])
  | emptyObject {gap : List Char} (blank : Blank gap) :
    Written (.object []) ('\x7b' :: gap ++ ['\x7d'])
  | object {members : List (List Nat × Value)} {text : List Char}
    (listed : WrittenMembers members text) : Written (.object members) ('\x7b' :: text ++ ['\x7d'])

inductive WrittenItem : Value → List Char → Prop
  | item {value : Value} {before text after : List Char} (blank : Blank before)
    (written : Written value text) (behind : Blank after) :
    WrittenItem value (before ++ text ++ after)

inductive WrittenItems : List Value → List Char → Prop
  | last {item : Value} {text : List Char} (written : WrittenItem item text) :
    WrittenItems [item] text
  | more {item : Value} {items : List Value} {text others : List Char}
    (written : WrittenItem item text) (rest : WrittenItems items others) :
    WrittenItems (item :: items) (text ++ ',' :: others)

inductive WrittenMember : List Nat × Value → List Char → Prop
  | member {name : List Nat} {value : Value} {before spelling between text : List Char}
    (blank : Blank before) (spelled : Spelled name spelling) (gap : Blank between)
    (written : WrittenItem value text) :
    WrittenMember (name, value) (before ++ '"' :: spelling ++ '"' :: between ++ ':' :: text)

inductive WrittenMembers : List (List Nat × Value) → List Char → Prop
  | last {member : List Nat × Value} {text : List Char} (written : WrittenMember member text) :
    WrittenMembers [member] text
  | more {member : List Nat × Value} {members : List (List Nat × Value)}
    {text others : List Char} (written : WrittenMember member text)
    (rest : WrittenMembers members others) :
    WrittenMembers (member :: members) (text ++ ',' :: others)

end

theorem numeral_of_item {literal text : List Char} (written : WrittenItem (.number literal) text) :
    Numeral literal := by
  cases written with
  | item _ inner _ =>
    cases inner with
    | number numeral => exact numeral

theorem exists_item_of_member {member : List Nat × Value} {text : List Char}
    (written : WrittenMember member text) : ∃ own, WrittenItem member.2 own := by
  cases written with
  | member _ _ _ inner => exact ⟨_, inner⟩

theorem exists_item_of_members {members : List (List Nat × Value)} {text : List Char}
    (listed : WrittenMembers members text) : ∀ member ∈ members, ∃ own, WrittenItem member.2 own :=
  match listed with
  | .last written => by
    rw [List.forall_mem_singleton]
    exact exists_item_of_member written
  | .more written rest => by
    rw [List.forall_mem_cons]
    exact ⟨exists_item_of_member written, exists_item_of_members rest⟩

theorem exists_item_of_object {members : List (List Nat × Value)} {text : List Char}
    (written : WrittenItem (.object members) text) :
    ∀ member ∈ members, ∃ own, WrittenItem member.2 own := by
  cases written with
  | item _ inner _ =>
    cases inner with
    | emptyObject _ => exact nofun
    | object listed => exact exists_item_of_members listed

end EvidencePages.Json

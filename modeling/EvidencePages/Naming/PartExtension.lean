import EvidencePages.Store.FileStore

/-!
# Extensions of evidence file parts

Part 1 to 99 of an evidence file carry the letter of the first part and two
digits. From part 100 on three letters count on, `EAA`, `EAB`, …, `ZZZ`. The
case is that of the first part's letter.
-/

set_option autoImplicit false

namespace EvidencePages

def upperLetter? (c : Char) : Option Nat :=
  if 'A' ≤ c ∧ c ≤ 'Z' then some (c.toNat - 'A'.toNat)
  else if 'a' ≤ c ∧ c ≤ 'z' then some (c.toNat - 'a'.toNat)
  else none

def letter (upper : Bool) (index : Nat) : Char :=
  Char.ofNat ((if upper then 'A' else 'a').toNat + index)

def letterLimit : Nat := 26 * 26 * 26

/-- A sum that has no place in its 32 bits. -/
structure Overflow where
  deriving DecidableEq, Repr

/-- The extension of part `number` of the set whose first part has extension `first`. The place of
the part among the combinations of letters is worked out in 32 bits. -/
def partExtension (first : String) (number : UInt32) : Except Overflow (Option String) :=
  match first.toList with
  | [] => .ok none
  | lead :: _ =>
    match upperLetter? lead with
    | none => .ok none
    | some index =>
      let upper := decide (lead ≤ 'Z')
      if number = 0 then .ok none
      else if number ≤ 99 then
        .ok (some (String.ofList
          (letter upper index :: (Nat.toDigits 10 number.toNat).leftpad 2 '0')))
      else
        let value := index * (26 * 26) + (number.toNat - 100)
        if UInt32.size ≤ value then .error ⟨⟩
        else if letterLimit ≤ value then .ok none
        else
          .ok (some (String.ofList [
            letter upper (value / (26 * 26)),
            letter upper (value / 26 % 26),
            letter upper (value % 26)]))

namespace EvidenceParts

/-- The extension of a part that is looked for. No such part has a number that overflows. -/
def extensionOf? (first : String) (number : Nat) : Option String :=
  match partExtension first (UInt32.ofNat number) with
  | .error _ => none
  | .ok ext => ext

/-- The parts from `number` on, `count` at most, as long as each is a file. -/
def found (store : FileStore) (first : Path) (ext : String) : Nat → Nat → List Path
  | 0, _ => []
  | count + 1, number =>
    match extensionOf? ext number with
    | none => []
    | some next =>
      let candidate := first.withExtension next
      if store.isFile candidate then candidate :: found store first ext count (number + 1)
      else []

def countLimit : Nat := 99 + 26 * 26 * 26

def discover (store : FileStore) (first : Path) : List Path :=
  first :: found store first (first.extension.getD "") countLimit 2

end EvidenceParts

end EvidencePages

import EvidencePages.Store.Reading

/-!
# Names of split images

The first part of a split image is known by the end of its name, which holds
a three-digit number. The other parts have the same name with later numbers
in its place, padded to three digits.
-/

set_option autoImplicit false

namespace EvidencePages

/-- An end of a name that marks a first part: the digits of its number with what stands around
them. -/
structure SplitEnding where
  lead : List Char
  digits : List Char
  tail : List Char
  number : Nat

def splitEndings : List SplitEnding := [
  ⟨['.'], ['0', '0', '0'], [], 0⟩,
  ⟨['.'], ['0', '0', '1'], [], 1⟩,
  ⟨[], ['0', '0', '1'], ['.', 'v', 'm', 'd', 'k'], 1⟩]

def SplitEnding.text (ending : SplitEnding) : List Char :=
  ending.lead ++ ending.digits ++ ending.tail

def SplitEnding.ends (ending : SplitEnding) (name : List Char) : Bool :=
  ending.text.isSuffixOf name

structure SplitName where
  before : List Char
  after : List Char
  next : Nat
  deriving DecidableEq, Repr

namespace SplitName

def isFirstPart (path : Path) : Bool :=
  splitEndings.any fun ending => ending.ends path.text.toList

def ofPath? (path : Path) : Option SplitName :=
  let name := path.text.toList
  match splitEndings.find? fun ending => ending.ends name with
  | none => none
  | some ending =>
    some {
      before := name.take (name.length - (ending.digits.length + ending.tail.length))
      after := ending.tail
      next := ending.number + 1 }

def padded (number : Nat) : List Char := (Nat.toDigits 10 number).leftpad 3 '0'

def pathOf (name : SplitName) (number : Nat) : Path :=
  ⟨String.ofList (name.before ++ padded number ++ name.after)⟩

/-- The parts from `number` on, `count` at most, as long as each can be opened. -/
def found (store : FileStore) (name : SplitName) : Nat → Nat → List Path
  | 0, _ => []
  | count + 1, number =>
    match store.openFile (name.pathOf number) with
    | .error _ => []
    | .ok _ => name.pathOf number :: found store name count (number + 1)

def numberLimit : Nat := 1 <<< 32

/-- The parts after the first, up to the first number that has no file. That there is a file for
every number, and counting on from the last one overflows, is left out. -/
def laterParts (store : FileStore) (name : SplitName) : List Path :=
  name.found store (numberLimit - name.next) name.next

end SplitName

end EvidencePages

/-!
# Text cut at a separator

`pieces` cuts a text at every separator and keeps empty pieces, so joining the
pieces again gives the text back. Path components, lines and table cells are
all cut this way.
-/

set_option autoImplicit false

namespace EvidencePages.Text

def pieces (sep : Char) : List Char → List (List Char)
  | [] => [[]]
  | c :: rest =>
    if c = sep then [] :: pieces sep rest
    else
      match pieces sep rest with
      | [] => [[c]]
      | piece :: more => (c :: piece) :: more

def joined (sep : Char) : List (List Char) → List Char
  | [] => []
  | [piece] => piece
  | piece :: more => piece ++ sep :: joined sep more

theorem pieces_ne_nil (sep : Char) (text : List Char) : pieces sep text ≠ [] := by
  induction text with
  | nil => simp [pieces]
  | cons c rest ih =>
    by_cases h : c = sep
    · simp [pieces, h]
    · cases hp : pieces sep rest with
      | nil => exact absurd hp ih
      | cons piece more => simp [pieces, h, hp]

theorem joined_pieces (sep : Char) (text : List Char) : joined sep (pieces sep text) = text := by
  induction text with
  | nil => simp [pieces, joined]
  | cons c rest ih =>
    by_cases h : c = sep
    · cases hp : pieces sep rest with
      | nil => exact absurd hp (pieces_ne_nil sep rest)
      | cons piece more => simpa [pieces, h, hp, joined] using ih
    · cases hp : pieces sep rest with
      | nil => exact absurd hp (pieces_ne_nil sep rest)
      | cons piece more =>
        cases more with
        | nil => simpa [pieces, h, hp, joined] using ih
        | cons next more => simpa [pieces, h, hp, joined] using ih

/-- The text cut at `sep`, each piece as a string. -/
def cut (sep : Char) (text : String) : List String :=
  (pieces sep text.toList).map String.ofList

/-- Cutting at the last `sep`: what stands before it, if there is one, and what stands after it. -/
def cutLast (sep : Char) (text : List Char) : Option (List Char) × List Char :=
  let back := text.reverse
  match back.dropWhile (· ≠ sep) with
  | [] => (none, text)
  | _ :: before => (some before.reverse, (back.takeWhile (· ≠ sep)).reverse)

end EvidencePages.Text

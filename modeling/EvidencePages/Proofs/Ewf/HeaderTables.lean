import EvidencePages.Ewf.CaseInfo
import EvidencePages.Proofs.Ewf.Acquisition
import EvidencePages.Proofs.Lookup
import EvidencePages.Proofs.Path
import EvidencePages.Proofs.Text.Encodings
import EvidencePages.Proofs.Zlib.Plain
import Mathlib.Data.List.DropRight

/-!
# Case information told by a header table

A table of identifiers and values is written as text and read back. Spaces
around a cell do not count when it is paired with its value, but they do when
the row of identifiers is searched: if a number stands there with spaces around
its name, nothing of the table is told. The encoding of the text does not
matter.
-/

set_option autoImplicit false

namespace EvidencePages

namespace Text

/-! ## Spaces at the end -/

theorem trimRight_append_spaces (text : List Char) {spaces : List Char}
    (blank : ∀ c ∈ spaces, isSpace c = true) : trimRight (text ++ spaces) = trimRight text := by
  have back : spaces.reverse.dropWhile isSpace = [] :=
    List.dropWhile_eq_nil_iff.mpr fun c listed => blank c (List.mem_reverse.mp listed)
  rw [trimRight, trimRight, List.reverse_append, List.dropWhile_append, back]
  rfl

theorem trim_append_spaces (text : List Char) {spaces : List Char}
    (blank : ∀ c ∈ spaces, isSpace c = true) : trim (text ++ spaces) = trim text := by
  have front : spaces.dropWhile isSpace = [] := List.dropWhile_eq_nil_iff.mpr blank
  rw [trim, trim, trimLeft, trimLeft, List.dropWhile_append, front]
  split
  · rename_i empty
    rw [List.isEmpty_iff.mp empty]
  · exact trimRight_append_spaces _ blank

end Text

namespace Ewf.CaseInfo

/-! ## Lines -/

def dropReturns (line : List Char) : List Char := line.rdropWhile (· = '\r')

theorem trim_dropReturns (line : List Char) : Text.trim (dropReturns line) = Text.trim line := by
  have blank : ∀ c ∈ line.rtakeWhile (· = '\r'), Text.isSpace c = true := by
    intro c listed
    have same : c = '\r' := of_decide_eq_true (List.mem_rtakeWhile_imp (p := (· = '\r')) listed)
    rw [same]
    decide
  have whole : dropReturns line ++ line.rtakeWhile (· = '\r') = line :=
    List.rdropWhile_append_rtakeWhile
  rw [← Text.trim_append_spaces _ blank, whole]

theorem dropReturns_append_cons (front back : List Char) {c : Char} (other : c ≠ '\r') :
    dropReturns (front ++ c :: back) = front ++ c :: dropReturns back := by
  have stop : (c :: front.reverse).dropWhile (· = '\r') = c :: front.reverse :=
    List.dropWhile_cons_of_neg (by rw [decide_eq_true_eq]; exact other)
  have reversed : (front ++ c :: back).reverse = back.reverse ++ c :: front.reverse := by
    rw [List.reverse_append, List.reverse_cons, List.append_assoc]
    rfl
  rw [dropReturns, dropReturns, List.rdropWhile, List.rdropWhile, reversed, List.dropWhile_append,
    stop]
  split
  · rename_i empty
    rw [List.isEmpty_iff.mp empty, List.reverse_cons, List.reverse_reverse]
    rfl
  · rw [List.reverse_append, List.reverse_cons, List.reverse_reverse, List.append_assoc]
    rfl

/-- The cells of a line. The last one has no carriage returns at its end. -/
def lineCells : List (List Char) → List (List Char)
  | [] => []
  | [cell] => [dropReturns cell]
  | cell :: next :: rest => cell :: lineCells (next :: rest)

theorem lineCells_ne_nil {cells : List (List Char)} (some : cells ≠ []) : lineCells cells ≠ [] := by
  cases cells with
  | nil => exact absurd rfl some
  | cons cell rest => cases rest <;> exact List.cons_ne_nil _ _

theorem dropReturns_joined (cells : List (List Char)) :
    dropReturns (Text.joined '\t' cells) = Text.joined '\t' (lineCells cells) := by
  induction cells with
  | nil => rfl
  | cons cell rest ih =>
    cases rest with
    | nil => rfl
    | cons next rest =>
      obtain ⟨first, more, cells⟩ := List.exists_cons_of_ne_nil
        (lineCells_ne_nil (List.cons_ne_nil next rest))
      rw [Text.joined_cons_cons, dropReturns_append_cons _ _ (by decide), ih, lineCells, cells,
        Text.joined_cons_cons]

theorem not_mem_of_mem_lineCells {cells : List (List Char)} (apart : ∀ cell ∈ cells, '\t' ∉ cell)
    {cell : List Char} (listed : cell ∈ lineCells cells) : '\t' ∉ cell := by
  induction cells with
  | nil => cases listed
  | cons first rest ih =>
    cases rest with
    | nil =>
      rw [List.mem_singleton.mp listed]
      intro inside
      exact apart first List.mem_cons_self ((List.rdropWhile_prefix _ first).subset inside)
    | cons next rest =>
      rcases List.mem_cons.mp listed with rfl | later
      · exact apart cell List.mem_cons_self
      · exact ih (fun other there => apart other (List.mem_cons_of_mem _ there)) later

theorem pieces_dropReturns_joined {cells : List (List Char)} (some : cells ≠ [])
    (apart : ∀ cell ∈ cells, '\t' ∉ cell) :
    Text.pieces '\t' (dropReturns (Text.joined '\t' cells)) = lineCells cells := by
  rw [dropReturns_joined]
  exact Text.pieces_joined (lineCells_ne_nil some) fun _ => not_mem_of_mem_lineCells apart

/-! ## Tables -/

def headerText (fields : List (String × String)) : String :=
  "1\nmain\n" ++ "\t".intercalate (fields.map (·.1)) ++ "\n" ++
    "\t".intercalate (fields.map (·.2)) ++ "\n\n"

def keyCells (fields : List (String × String)) : List (List Char) := fields.map (·.1.toList)

def valueCells (fields : List (String × String)) : List (List Char) := fields.map (·.2.toList)

def trimmed (fields : List (String × String)) : List (List Char × List Char) :=
  fields.map fun entry => (Text.trim entry.1.toList, Text.trim entry.2.toList)

def names (fields : List (String × String)) : List (List Char) := (trimmed fields).map (·.1)

/-- Cells stand on one line and within tabs, and no name stands for two values. Both numbers are
named. -/
structure Tabular (fields : List (String × String)) : Prop where
  cells : ∀ cell ∈ keyCells fields ++ valueCells fields, '\t' ∉ cell ∧ '\n' ∉ cell
  distinct : (names fields).Nodup
  caseNumber : ['c'] ∈ names fields
  evidenceNumber : ['n'] ∈ names fields

/-- Both numbers are named as they stand in the line. -/
def Found (fields : List (String × String)) : Prop := isKeyRow (lineCells (keyCells fields)) = true

instance (fields : List (String × String)) : Decidable (Found fields) :=
  inferInstanceAs (Decidable (_ = true))

/-- What a table tells of a field: the value of its name, unless that is blank. -/
def told? (fields : List (String × String)) (field : CaseField) : Option String :=
  (((trimmed fields).lookup (key field)).filter (· ≠ [])).map String.ofList

theorem toList_intercalate_tab (cells : List String) :
    ("\t".intercalate cells).toList = Text.joined '\t' (cells.map String.toList) := by
  rw [String.toList_intercalate]
  exact Text.intercalate_eq_joined _

theorem not_mem_joined {cells : List (List Char)} {c : Char} (tab : c ≠ '\t')
    (apart : ∀ cell ∈ cells, c ∉ cell) : c ∉ Text.joined '\t' cells := by
  induction cells with
  | nil => exact List.not_mem_nil
  | cons cell rest ih =>
    cases rest with
    | nil => exact apart cell List.mem_cons_self
    | cons next rest =>
      intro inside
      rw [Text.joined_cons_cons] at inside
      rcases List.mem_append.mp inside with own | later
      · exact apart cell List.mem_cons_self own
      · rcases List.mem_cons.mp later with same | more
        · exact tab same
        · exact ih (fun other there => apart other (List.mem_cons_of_mem _ there)) more

theorem toList_headerText (fields : List (String × String)) :
    (headerText fields).toList = ['1'] ++ '\n' :: (['m', 'a', 'i', 'n'] ++ '\n' ::
      (Text.joined '\t' (keyCells fields) ++ '\n' ::
        (Text.joined '\t' (valueCells fields) ++ '\n' :: ([] ++ '\n' :: [])))) := by
  have front : "1\nmain\n".toList = ['1', '\n', 'm', 'a', 'i', 'n', '\n'] := by decide
  have between : "\n".toList = ['\n'] := by decide
  have back : "\n\n".toList = ['\n', '\n'] := by decide
  simp only [headerText, String.toList_append, toList_intercalate_tab, List.map_map, front,
    between, back, keyCells, valueCells, List.append_assoc]
  rfl

theorem lines_headerText {fields : List (String × String)}
    (plain : ∀ cell ∈ keyCells fields ++ valueCells fields, '\n' ∉ cell) :
    lines (headerText fields).toList = [['1'], ['m', 'a', 'i', 'n'],
      dropReturns (Text.joined '\t' (keyCells fields)),
      dropReturns (Text.joined '\t' (valueCells fields)), []] := by
  have keys : '\n' ∉ Text.joined '\t' (keyCells fields) :=
    not_mem_joined (by decide) fun cell there => plain cell (List.mem_append_left _ there)
  have values : '\n' ∉ Text.joined '\t' (valueCells fields) :=
    not_mem_joined (by decide) fun cell there => plain cell (List.mem_append_right _ there)
  have cut : Text.pieces '\n' (headerText fields).toList = [['1'], ['m', 'a', 'i', 'n'],
      Text.joined '\t' (keyCells fields), Text.joined '\t' (valueCells fields), [], []] := by
    rw [toList_headerText, Text.pieces_append_cons, Text.pieces_append_cons,
      Text.pieces_append_cons, Text.pieces_append_cons, Text.pieces_of_not_mem keys,
      Text.pieces_of_not_mem values]
    rfl
  rw [lines, cut]
  rfl

theorem ofText_headerText {fields : List (String × String)} (some : fields ≠ [])
    (cells : ∀ cell ∈ keyCells fields ++ valueCells fields, '\t' ∉ cell ∧ '\n' ∉ cell) :
    ofText (headerText fields).toList =
      if Found fields then ofRow (lineCells (keyCells fields)) (lineCells (valueCells fields))
      else {} := by
  have keys : keyCells fields ≠ [] := fun empty => some (List.map_eq_nil_iff.mp empty)
  have values : valueCells fields ≠ [] := fun empty => some (List.map_eq_nil_iff.mp empty)
  have keyRow := pieces_dropReturns_joined keys
    fun cell there => (cells cell (List.mem_append_left _ there)).1
  have valueRow := pieces_dropReturns_joined values
    fun cell there => (cells cell (List.mem_append_right _ there)).1
  have first : isKeyRow (Text.pieces '\t' ['1']) = false := by decide
  have second : isKeyRow (Text.pieces '\t' ['m', 'a', 'i', 'n']) = false := by decide
  have blank : ∀ keys, ofRow keys (Text.pieces '\t' []) = {} := by
    intro keys
    rcases keys with _ | ⟨cell, _ | ⟨next, rest⟩⟩ <;> rfl
  rw [ofText, lines_headerText fun cell there => (cells cell there).2]
  simp only [ofLines, first, second, keyRow, valueRow, blank, ite_self, Bool.false_eq_true,
    if_false]
  rfl

/-! ## Pairs -/

def kept? (key value : List Char) : Option (List Char × List Char) :=
  if Text.trim value = [] then none else some (Text.trim key, Text.trim value)

theorem kept?_dropReturns (key value : List Char) :
    kept? (dropReturns key) (dropReturns value) = kept? key value := by
  rw [kept?, kept?, trim_dropReturns, trim_dropReturns]

theorem filterMap_kept?_lineCells (fields : List (String × String)) :
    ((lineCells (keyCells fields)).zip (lineCells (valueCells fields))).filterMap
        (fun pair => kept? pair.1 pair.2) =
      fields.filterMap fun entry => kept? entry.1.toList entry.2.toList := by
  induction fields with
  | nil => rfl
  | cons entry rest ih =>
    cases rest with
    | nil =>
      change [(dropReturns entry.1.toList, dropReturns entry.2.toList)].filterMap _ = _
      rw [List.filterMap_cons, List.filterMap_cons, kept?_dropReturns]
      rfl
    | cons next rest =>
      change ((entry.1.toList, entry.2.toList) :: (lineCells (keyCells (next :: rest))).zip
        (lineCells (valueCells (next :: rest)))).filterMap _ = _
      rw [List.filterMap_cons, List.filterMap_cons, ih]

theorem filterMap_kept? (fields : List (String × String)) :
    (fields.filterMap fun entry => kept? entry.1.toList entry.2.toList) =
      (trimmed fields).filter fun pair => pair.2 ≠ [] := by
  induction fields with
  | nil => rfl
  | cons entry rest ih =>
    change _ = List.filter _ ((Text.trim entry.1.toList, Text.trim entry.2.toList) :: trimmed rest)
    rw [List.filterMap_cons, kept?, ih]
    by_cases blank : Text.trim entry.2.toList = []
    · rw [if_pos blank, List.filter_cons_of_neg (by rw [decide_eq_true_eq]; exact absurd blank)]
    · rw [if_neg blank, List.filter_cons_of_pos (by rw [decide_eq_true_eq]; exact blank)]

theorem fields_ofRow (fields : List (String × String)) :
    (ofRow (lineCells (keyCells fields)) (lineCells (valueCells fields))).fields =
      ((trimmed fields).filter fun pair => pair.2 ≠ []).reverse := by
  rw [← filterMap_kept?, ← filterMap_kept?_lineCells]
  rfl

theorem value?_ofRow {fields : List (String × String)} (distinct : (names fields).Nodup)
    (field : CaseField) :
    (ofRow (lineCells (keyCells fields)) (lineCells (valueCells fields))).value? field =
      told? fields field := by
  have kept : (((trimmed fields).filter fun pair => pair.2 ≠ []).map (·.1)).Nodup :=
    (List.filter_sublist.map _).nodup distinct
  rw [value?, fields_ofRow, lookup_reverse kept, lookup_filter_values distinct (· ≠ []), told?]

/-! ## Sections -/

def wideBytes (marked : Bool) (text : List Char) : ByteArray :=
  Text.utf16Bytes (if marked then byteOrderMark :: text else text)

section Deflate

variable {deflate : ByteArray → ByteArray}
  (inflates : ∀ data, Zlib.decode? (deflate data) = some data)

include inflates

theorem decode_toUTF8 (text : String) :
    decode false (deflate text.toUTF8) =
      ofText (text.toList.dropWhile (· = byteOrderMark)) := by
  rw [decode, inflates, Option.getD_some, if_neg Bool.false_ne_true, Text.utf8_toUTF8]

theorem decode_wideBytes (marked : Bool) (text : List Char) :
    decode true (deflate (wideBytes marked text)) =
      ofText (text.dropWhile (· = byteOrderMark)) := by
  rw [decode, inflates, Option.getD_some, if_pos rfl, wideBytes, Text.utf16_utf16Bytes]
  cases marked <;> rfl

theorem value?_headerText {fields : List (String × String)} (tabular : Tabular fields)
    (field : CaseField) :
    (decode false (deflate (headerText fields).toUTF8)).value? field =
      if Found fields then told? fields field else none := by
  have some : fields ≠ [] := by
    rintro rfl
    cases tabular.caseNumber
  have unmarked : (headerText fields).toList.dropWhile (· = byteOrderMark) =
      (headerText fields).toList := by
    rw [toList_headerText]
    rfl
  rw [decode_toUTF8 inflates, unmarked, ofText_headerText some tabular.cells]
  split
  · exact value?_ofRow tabular.distinct field
  · rfl

/-- The fields of a table are told if both numbers are named as they stand, and else none of them
is. What is told of a text is the same in both encodings. -/
theorem headers_tell_iff :
    (∀ fields, Tabular fields →
      ((∀ field, (decode false (deflate (headerText fields).toUTF8)).value? field =
          told? fields field) ↔
        Found fields ∨ ∀ field, told? fields field = none) ∧
      (¬Found fields → ∀ field,
        (decode false (deflate (headerText fields).toUTF8)).value? field = none)) ∧
    ∀ (text : String) (marked : Bool),
      decode true (deflate (wideBytes marked text.toList)) =
        decode false (deflate text.toUTF8) := by
  refine ⟨fun fields tabular => ?_, fun text marked => ?_⟩
  · have value := value?_headerText inflates tabular
    by_cases found : Found fields
    · simp only [if_pos found] at value
      exact ⟨iff_of_true value (.inl found), fun missed => absurd found missed⟩
    · simp only [if_neg found] at value
      refine ⟨⟨fun tells => .inr fun field => ?_, fun cases field => ?_⟩, fun _ => value⟩
      · rw [← tells field, value]
      · rw [value, cases.resolve_left found]
  · rw [decode_wideBytes inflates, decode_toUTF8 inflates]

end Deflate

/-- Identifiers in any order, one of them with spaces around it and one without a value. -/
def spaced : List (String × String) :=
  [("t", ""), ("n", " EV-03\r"), (" e ", "𝄞 Doe"), ("c", "2024 117 ")]

theorem headers_tell_spaced :
    (∀ data, Zlib.decode? (Zlib.plainStream data) = some data) ∧ Tabular spaced ∧
      ∀ field, (decode false (Zlib.plainStream (headerText spaced).toUTF8)).value? field =
        match field with
        | .notes => none
        | .caseNumber => some "2024 117"
        | .evidenceNumber => some "EV-03"
        | .examinerName => some "𝄞 Doe" := by
  have tabular : Tabular spaced :=
    ⟨by decide, by decide, by decide, by decide⟩
  obtain ⟨tables, -⟩ := headers_tell_iff Zlib.decode?_plainStream
  have told := (tables spaced tabular).1.mpr (.inl (by decide))
  refine ⟨Zlib.decode?_plainStream, tabular, fun field => (told field).trans ?_⟩
  cases field <;> decide

def padded : List (String × String) := [(" c", "1"), ("n", "2")]

theorem case_number_lost_padded :
    Tabular padded ∧ told? padded .caseNumber = some "1" ∧
      (decode false (Zlib.plainStream (headerText padded).toUTF8)).value? .caseNumber = none := by
  have tabular : Tabular padded := ⟨by decide, by decide, by decide, by decide⟩
  have missed : ¬Found padded := by decide
  have value := value?_headerText Zlib.decode?_plainStream tabular .caseNumber
  rw [if_neg missed] at value
  exact ⟨tabular, by decide, value⟩

end Ewf.CaseInfo

end EvidencePages

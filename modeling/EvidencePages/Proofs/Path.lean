import EvidencePages.Naming.Wildcard

/-!
# Names at the end of paths

The text of a path is told by its components: a block of characters without a
slash stands in one of them. A path that leads to anything but a directory
ends in a component that is not blank, and all that stands before that component
is its directory.
-/

set_option autoImplicit false

namespace EvidencePages

namespace Text

variable {sep : Char}

theorem joined_cons_cons (piece next : List Char) (more : List (List Char)) :
    joined sep (piece :: next :: more) = piece ++ sep :: joined sep (next :: more) := rfl

theorem joined_concat {before : List (List Char)} (some : before ≠ []) (last : List Char) :
    joined sep (before ++ [last]) = joined sep before ++ sep :: last := by
  induction before with
  | nil => exact absurd rfl some
  | cons piece more ih =>
    cases more with
    | nil => rfl
    | cons next more =>
      have rest := ih (List.cons_ne_nil next more)
      change piece ++ sep :: joined sep (next :: more ++ [last]) =
        piece ++ sep :: joined sep (next :: more) ++ sep :: last
      rw [rest, List.append_assoc]
      rfl

theorem intercalate_eq_joined (pieces : List (List Char)) :
    [sep].intercalate pieces = joined sep pieces := by
  induction pieces with
  | nil => rfl
  | cons piece more ih =>
    cases more with
    | nil => exact List.append_nil piece
    | cons next more =>
      rw [joined_cons_cons, ← ih]
      rfl

theorem toList_cut (text : String) : (cut sep text).map String.toList = pieces sep text.toList := by
  rw [cut, List.map_map]
  exact (List.map_congr_left fun _ _ => String.toList_ofList).trans (List.map_id _)

theorem cut_ne_nil (text : String) : cut sep text ≠ [] :=
  fun empty => pieces_ne_nil sep text.toList (List.map_eq_nil_iff.mp empty)

theorem exists_cut (sep : Char) (text : String) :
    ∃ before last, cut sep text = before ++ [last] :=
  ⟨_, _, (List.dropLast_concat_getLast (cut_ne_nil text)).symm⟩

/-! ## Pieces of a text put together -/

theorem not_mem_of_mem_pieces {text piece : List Char} (listed : piece ∈ pieces sep text) :
    sep ∉ piece := by
  induction text generalizing piece with
  | nil =>
    cases List.mem_singleton.mp listed
    exact List.not_mem_nil
  | cons c rest ih =>
    rw [pieces] at listed
    split at listed
    · rcases List.mem_cons.mp listed with rfl | later
      · exact List.not_mem_nil
      · exact ih later
    · rename_i other
      cases cut : pieces sep rest with
      | nil => exact absurd cut (pieces_ne_nil sep rest)
      | cons first more =>
        simp only [cut] at listed ih
        rcases List.mem_cons.mp listed with rfl | later
        · rintro (_ | ⟨_, inside⟩)
          · exact other rfl
          · exact ih List.mem_cons_self inside
        · exact ih (List.mem_cons_of_mem _ later)

theorem pieces_of_not_mem {text : List Char} (apart : sep ∉ text) : pieces sep text = [text] := by
  induction text with
  | nil => rfl
  | cons c rest ih =>
    have other : c ≠ sep := fun same => apart (same ▸ List.mem_cons_self)
    rw [pieces, if_neg other, ih fun inside => apart (List.mem_cons_of_mem _ inside)]

theorem pieces_append_cons (front back : List Char) :
    pieces sep (front ++ sep :: back) = pieces sep front ++ pieces sep back := by
  induction front with
  | nil => simp [pieces]
  | cons c rest ih =>
    rw [List.cons_append, pieces, ih, pieces]
    split
    · rfl
    · cases cut : pieces sep rest with
      | nil => exact absurd cut (pieces_ne_nil sep rest)
      | cons first more => rfl

theorem pieces_joined {parts : List (List Char)} (some : parts ≠ [])
    (apart : ∀ piece ∈ parts, sep ∉ piece) : pieces sep (joined sep parts) = parts := by
  induction parts with
  | nil => exact absurd rfl some
  | cons piece more ih =>
    have own := pieces_of_not_mem (apart piece List.mem_cons_self)
    cases more with
    | nil => exact own
    | cons next more =>
      rw [joined_cons_cons, pieces_append_cons, own,
        ih (List.cons_ne_nil _ _) fun piece later => apart piece (List.mem_cons_of_mem _ later)]
      rfl

theorem joined_suffix (piece : List Char) (more : List (List Char)) :
    joined sep more <:+ joined sep (piece :: more) := by
  cases more with
  | nil => exact List.nil_suffix
  | cons next more => exact (List.suffix_cons _ _).trans (List.suffix_append _ _)

theorem head_starts_joined (piece : List Char) (more : List (List Char)) :
    piece <+: joined sep (piece :: more) := by
  cases more with
  | nil => exact List.prefix_rfl
  | cons next more => exact List.prefix_append _ _

theorem joined_sublist {parts all : List (List Char)} (kept : parts.Sublist all) :
    (joined sep parts).Sublist (joined sep all) := by
  induction kept with
  | slnil => exact List.Sublist.refl _
  | cons piece _ ih => exact ih.trans (joined_suffix piece _).sublist
  | cons_cons piece kept ih =>
    rename_i parts all
    cases parts with
    | nil => exact (head_starts_joined piece all).sublist
    | cons next more =>
      cases all with
      | nil => exact absurd (List.sublist_nil.mp kept) (List.cons_ne_nil _ _)
      | cons first rest => exact (List.Sublist.refl piece).append (ih.cons_cons sep)

theorem not_mem_of_mem_cut {text piece : String} (listed : piece ∈ cut sep text) :
    sep ∉ piece.toList := by
  obtain ⟨chars, there, rfl⟩ := List.mem_map.mp listed
  rw [String.toList_ofList]
  exact not_mem_of_mem_pieces there

theorem cut_eq {text : String} {parts : List String} (some : parts ≠ [])
    (apart : ∀ piece ∈ parts, sep ∉ piece.toList)
    (same : text.toList = joined sep (parts.map String.toList)) : cut sep text = parts := by
  have whole : pieces sep text.toList = parts.map String.toList := by
    rw [same, pieces_joined (fun none => some (List.map_eq_nil_iff.mp none))]
    intro chars listed
    obtain ⟨piece, there, rfl⟩ := List.mem_map.mp listed
    exact apart piece there
  rw [cut, whole, List.map_map]
  exact (List.map_congr_left fun _ _ => String.ofList_toList).trans (List.map_id _)

/-! ## Blocks without the separator -/

variable {block : List Char}

theorem infix_append_cons_iff (apart : sep ∉ block) (front back : List Char) :
    block <:+: front ++ sep :: back ↔ block <:+: front ∨ block <:+: back := by
  constructor
  · intro inside
    rcases List.infix_append_iff.mp inside with left | right | ⟨head, tail, rfl, last, first⟩
    · exact .inl left
    · rcases List.infix_cons_iff.mp right with start | later
      · cases block with
        | nil => exact .inl (List.nil_infix)
        | cons c rest =>
          obtain ⟨rfl, -⟩ := List.cons_prefix_cons.mp start
          exact absurd List.mem_cons_self apart
      · exact .inr later
    · -- a block over the separator would hold it
      cases tail with
      | nil =>
        rw [List.append_nil]
        exact .inl last.isInfix
      | cons c rest =>
        obtain ⟨rfl, -⟩ := List.cons_prefix_cons.mp first
        exact absurd (List.mem_append_right _ List.mem_cons_self) apart
  · rintro (left | right)
    · exact left.trans (List.prefix_append _ _).isInfix
    · exact right.trans ((List.suffix_cons _ _).trans (List.suffix_append _ _)).isInfix

theorem infix_joined_iff (apart : sep ∉ block) (some : block ≠ []) (pieces : List (List Char)) :
    block <:+: joined sep pieces ↔ ∃ piece ∈ pieces, block <:+: piece := by
  induction pieces with
  | nil => simp [joined, some]
  | cons piece more ih =>
    cases more with
    | nil => simp [joined]
    | cons next more =>
      rw [joined, infix_append_cons_iff apart, ih]
      · simp only [List.mem_cons, exists_eq_or_imp]
      · exact List.cons_ne_nil _ _

/-! ## The last separator -/

theorem cutLast_append_cons (before : List Char) {after : List Char} (apart : sep ∉ after) :
    cutLast sep (before ++ sep :: after) = (some before, after) := by
  have other : ∀ c ∈ after.reverse, decide (c ≠ sep) = true := fun c inside =>
    decide_eq_true fun same => apart (same ▸ List.mem_reverse.mp inside)
  have back : (before ++ sep :: after).reverse = after.reverse ++ sep :: before.reverse := by
    rw [List.reverse_append, List.reverse_cons, List.append_assoc]
    rfl
  have kept : ((after.reverse ++ sep :: before.reverse).dropWhile (· ≠ sep)) =
      sep :: before.reverse := by
    rw [List.dropWhile_append_of_pos other, List.dropWhile_cons_of_neg (by simp)]
  have taken : ((after.reverse ++ sep :: before.reverse).takeWhile (· ≠ sep)) = after.reverse := by
    rw [List.takeWhile_append_of_pos other, List.takeWhile_cons_of_neg (by simp), List.append_nil]
  rw [cutLast, back, kept, taken]
  simp only [List.reverse_reverse]

theorem cutLast_of_not_mem {text : List Char} (apart : sep ∉ text) :
    cutLast sep text = (none, text) := by
  have other : ∀ c ∈ text.reverse, decide (c ≠ sep) = true := fun c inside =>
    decide_eq_true fun same => apart (same ▸ List.mem_reverse.mp inside)
  rw [cutLast, ← List.append_nil text.reverse, List.dropWhile_append_of_pos other]
  rfl

theorem exists_last {text : List Char} (inside : sep ∈ text) :
    ∃ before after, text = before ++ sep :: after ∧ sep ∉ after := by
  obtain ⟨back, front, cut, apart⟩ := List.eq_append_cons_of_mem (List.mem_reverse.mpr inside)
  refine ⟨front.reverse, back.reverse, ?_, fun there => apart (List.mem_reverse.mp there)⟩
  rw [← List.reverse_reverse text, cut, List.reverse_append, List.reverse_cons, List.append_assoc]
  rfl

theorem exists_cut_append (sep : Char) (front : List Char) :
    ∃ before tip, ∀ block : List Char, sep ∉ block →
      cut sep (String.ofList (front ++ block)) = before ++ [String.ofList (tip ++ block)] := by
  by_cases inside : sep ∈ front
  · obtain ⟨head, tip, rfl, apart⟩ := exists_last inside
    refine ⟨(pieces sep head).map String.ofList, tip, fun block plain => ?_⟩
    have whole : sep ∉ tip ++ block := fun there =>
      (List.mem_append.mp there).elim apart plain
    rw [cut, String.toList_ofList, List.append_assoc, List.cons_append, pieces_append_cons,
      pieces_of_not_mem whole, List.map_append, List.map_singleton]
  · refine ⟨[], front, fun block plain => ?_⟩
    have whole : sep ∉ front ++ block := fun there =>
      (List.mem_append.mp there).elim inside plain
    rw [cut, String.toList_ofList, pieces_of_not_mem whole, List.map_singleton, List.nil_append]

end Text

namespace Path

variable {path : Path} {before : List String} {last : String}

theorem isBlank_iff {component : String} :
    isBlank component = true ↔ component = "" ∨ component = "." := by
  rw [isBlank, Bool.or_eq_true, decide_eq_true_iff, decide_eq_true_iff]

theorem ne_of_solid {component : String} (solid : isBlank component = false) :
    component ≠ "" ∧ component ≠ "." := by
  constructor
  all_goals
    rintro rfl
    cases solid

theorem text_eq_joined (path : Path) :
    path.text.toList = Text.joined '/' ((Text.cut '/' path.text).map String.toList) := by
  rw [Text.toList_cut, Text.joined_pieces]

theorem toList_ofPieces (components : List String) :
    (ofPieces components).text.toList = Text.joined '/' (components.map String.toList) := by
  rw [ofPieces, String.toList_intercalate]
  exact Text.intercalate_eq_joined _

theorem text_of_cut (cut : Text.cut '/' path.text = before ++ [last]) :
    before = [] ∧ path.text.toList = last.toList ∨
      ∃ front, path.text.toList = front ++ '/' :: last.toList := by
  rw [text_eq_joined, cut, List.map_append]
  by_cases none : before = []
  · rw [none]
    exact .inl ⟨rfl, rfl⟩
  · exact .inr ⟨_, Text.joined_concat (fun empty => none (List.map_eq_nil_iff.mp empty)) _⟩

theorem lastComponent_of_cut (cut : Text.cut '/' path.text = before ++ [last])
    (solid : isBlank last = false) : path.lastComponent = some (before, last) := by
  have kept : ¬isBlank last = true := Bool.eq_false_iff.mp solid
  have back : (Text.cut '/' path.text).reverse.dropWhile isBlank = last :: before.reverse := by
    rw [cut, List.reverse_append]
    exact List.dropWhile_cons_of_neg kept
  simp only [lastComponent, back, List.reverse_reverse]

theorem fileName_of_cut (cut : Text.cut '/' path.text = before ++ [last])
    (solid : isBlank last = false) :
    path.fileName = if last = ".." then none else some last := by
  rw [fileName, located, lastComponent_of_cut cut solid]
  dsimp only
  split <;> rfl

theorem exists_cut_of_endsInName (ends : path.endsInName = true) :
    ∃ before last, Text.cut '/' path.text = before ++ [last] ∧ isBlank last = false := by
  obtain ⟨before, last, cut⟩ := Text.exists_cut '/' path.text
  rw [endsInName, cut, List.getLast?_concat] at ends
  exact ⟨before, last, cut, Bool.not_eq_true' _ ▸ ends⟩

theorem cut_of_fileName {name : String} (named : path.fileName = some name)
    (ends : path.endsInName = true) :
    ∃ before, Text.cut '/' path.text = before ++ [name] ∧ isBlank name = false ∧ name ≠ ".." := by
  obtain ⟨before, last, cut, solid⟩ := exists_cut_of_endsInName ends
  rw [fileName_of_cut cut solid] at named
  split at named
  · cases named
  · rename_i parent
    cases named
    exact ⟨before, cut, solid, parent⟩

theorem mem_dropBlankEnd {component : String} (solid : isBlank component = false)
    (components : List String) : component ∈ dropBlankEnd components ↔ component ∈ components := by
  rw [dropBlankEnd, List.mem_reverse]
  constructor
  · exact fun inside => List.mem_reverse.mp ((List.dropWhile_suffix _).subset inside)
  · intro inside
    rw [← List.mem_reverse, ← components.reverse.takeWhile_append_dropWhile (p := isBlank),
      List.mem_append] at inside
    rcases inside with blank | kept
    · have told := List.all_eq_true.mp List.all_takeWhile component blank
      rw [solid] at told
      cases told
    · exact kept

theorem infix_directory_iff {block : List Char} (apart : '/' ∉ block)
    (telling : ∀ component, isBlank component = true → ¬block <:+: component.toList)
    (located : path.lastComponent = some (before, last)) :
    block <:+: path.directory.text.toList ↔ ∃ component ∈ before, block <:+: component.toList := by
  have some : block ≠ [] := by
    rintro rfl
    exact telling "" rfl List.nil_infix
  have pieces : ∀ components, block <:+: (ofPieces components).text.toList ↔
      ∃ component ∈ components, block <:+: component.toList := by
    intro components
    rw [toList_ofPieces, Text.infix_joined_iff apart some]
    constructor
    · rintro ⟨piece, listed, inside⟩
      obtain ⟨component, there, rfl⟩ := List.mem_map.mp listed
      exact ⟨component, there, inside⟩
    · rintro ⟨component, there, inside⟩
      exact ⟨_, List.mem_map_of_mem there, inside⟩
  -- Blank components cannot tell the block, so dropping them takes nothing away.
  have kept : ∀ components : List String,
      (∃ component ∈ dropBlankEnd components, block <:+: component.toList) ↔
        ∃ component ∈ components, block <:+: component.toList := by
    intro components
    refine exists_congr fun component => and_congr_left fun inside => ?_
    refine mem_dropBlankEnd (Bool.eq_false_iff.mpr fun blank => ?_) components
    exact telling component blank inside
  have slash : ¬block <:+: "/".toList := by
    intro inside
    rcases (Text.infix_append_cons_iff apart [] []).mp inside with none | none
    all_goals exact some (List.infix_nil.mp none)
  have rooted : ∀ first, isBlank first = true → ∀ rest : List String,
      (∃ component ∈ first :: rest, block <:+: component.toList) ↔
        ∃ component ∈ rest, block <:+: component.toList := by
    intro first blank rest
    simp only [List.mem_cons, exists_eq_or_imp, telling first blank, false_or]
  rw [directory, located]
  cases before with
  | nil =>
    simpa using some
  | cons first rest =>
    dsimp only
    split
    · rename_i blank
      rw [rooted first blank, ← kept rest]
      split
      · rename_i none
        rw [none]
        split
        · simpa using slash
        · simpa using telling first blank
      · rename_i components _
        rw [pieces, rooted first blank]
    · rw [pieces, kept]

theorem infix_text_iff {block : List Char} (apart : '/' ∉ block)
    (telling : ∀ component, isBlank component = true → ¬block <:+: component.toList)
    (cut : Text.cut '/' path.text = before ++ [last]) (solid : isBlank last = false) :
    block <:+: path.text.toList ↔
      block <:+: last.toList ∨ block <:+: path.directory.text.toList := by
  have some : block ≠ [] := by
    rintro rfl
    exact telling "" rfl List.nil_infix
  rw [infix_directory_iff apart telling (lastComponent_of_cut cut solid), text_eq_joined, cut,
    Text.infix_joined_iff apart some, List.map_append]
  constructor
  · rintro ⟨piece, listed, inside⟩
    rcases List.mem_append.mp listed with early | late
    · obtain ⟨component, there, rfl⟩ := List.mem_map.mp early
      exact .inr ⟨component, there, inside⟩
    · cases List.mem_singleton.mp late
      exact .inl inside
  · rintro (inside | ⟨component, there, inside⟩)
    · exact ⟨_, List.mem_append_right _ List.mem_cons_self, inside⟩
    · exact ⟨_, List.mem_append_left _ (List.mem_map_of_mem there), inside⟩

end Path

end EvidencePages

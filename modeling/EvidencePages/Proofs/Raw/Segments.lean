import EvidencePages.Proofs.Bytes
import EvidencePages.Raw.Segments

/-!
# The tiling of a split image

Segments laid out one after another leave no gap and do not overlap. The
segment that is found for an offset holds it, and none is found only from
the end of the last segment on.
-/

set_option autoImplicit false

namespace EvidencePages.Segment

def span (parts : List (Path × Nat)) : Nat := totalOf (parts.map (·.2))

theorem span_cons (part : Path × Nat) (rest : List (Path × Nat)) :
    span (part :: rest) = part.2 + span rest := rfl

theorem map_layout (start : Nat) (parts : List (Path × Nat)) :
    (layout start parts).map (fun segment => (segment.path, segment.length)) = parts := by
  induction parts generalizing start with
  | nil => rfl
  | cons part rest ih => rw [layout, List.map_cons, ih]

theorem mem_of_mem_layout {start : Nat} {parts : List (Path × Nat)} {segment : Segment}
    (listed : segment ∈ layout start parts) : (segment.path, segment.length) ∈ parts := by
  rw [← map_layout start parts]
  exact List.mem_map_of_mem listed

theorem layout_getElem? (start : Nat) (parts : List (Path × Nat)) (index : Nat) :
    (layout start parts)[index]? =
      parts[index]?.map fun part => ⟨part.1, start + span (parts.take index), part.2⟩ := by
  induction parts generalizing start index with
  | nil => rfl
  | cons part rest ih =>
    obtain ⟨path, length⟩ := part
    cases index with
    | zero => rfl
    | succ index =>
      rw [layout, List.getElem?_cons_succ, ih, List.getElem?_cons_succ, List.take_succ_cons,
        span_cons, Nat.add_assoc]

theorem total_layout (start : Nat) (parts : List (Path × Nat)) (h : parts ≠ []) :
    total (layout start parts) = start + span parts := by
  induction parts generalizing start with
  | nil => exact absurd rfl h
  | cons part rest ih =>
    obtain ⟨path, length⟩ := part
    cases rest with
    | nil => rfl
    | cons next rest =>
      have later := ih (start + length) (List.cons_ne_nil _ _)
      rw [span_cons, ← Nat.add_assoc, ← later]
      obtain ⟨nextPath, nextLength⟩ := next
      rw [total, layout, layout, List.getLast?_cons_cons, ← layout, total]

theorem total_layout_zero (parts : List (Path × Nat)) : total (layout 0 parts) = span parts := by
  cases parts with
  | nil => rfl
  | cons part rest => rw [total_layout 0 _ (List.cons_ne_nil _ _), Nat.zero_add]

theorem owner?_cons (segment : Segment) (rest : List Segment) (offset : Nat) :
    owner? (segment :: rest) offset =
      if offset < segment.stop then
        if segment.contains offset then some (0, segment) else none
      else (owner? rest offset).map fun found => (found.1 + 1, found.2) := by
  unfold owner?
  rw [List.findIdx?_cons]
  by_cases before : offset < segment.stop
  · simp [before]
  · rw [if_neg before]
    rw [show decide (offset < segment.stop) = false by simpa using before]
    cases List.findIdx? (fun segment => decide (offset < segment.stop)) rest with
    | none => rfl
    | some index =>
      simp only [Bool.false_eq_true, if_false, Option.map_some, List.getElem?_cons_succ]
      cases rest[index]? with
      | none => rfl
      | some found => by_cases inside : found.contains offset <;> simp [inside]

theorem contains_iff (segment : Segment) (offset : Nat) :
    segment.contains offset = true ↔ segment.start ≤ offset ∧ offset < segment.stop := by
  simp [contains]

theorem owner?_eq_some {segments : List Segment} {offset index : Nat} {segment : Segment}
    (h : owner? segments offset = some (index, segment)) :
    segments[index]? = some segment ∧ segment.start ≤ offset ∧ offset < segment.stop := by
  induction segments generalizing index with
  | nil => cases h
  | cons first rest ih =>
    rw [owner?_cons] at h
    by_cases before : offset < first.stop
    · rw [if_pos before] at h
      by_cases inside : first.contains offset
      · rw [if_pos inside] at h
        cases h
        exact ⟨rfl, (contains_iff _ _).mp inside⟩
      · rw [if_neg inside] at h
        cases h
    · rw [if_neg before] at h
      obtain ⟨⟨found, owner⟩, there, eq⟩ := Option.map_eq_some_iff.mp h
      cases eq
      exact ih there

theorem le_start_of_layout {start index : Nat} {parts : List (Path × Nat)} {segment : Segment}
    (there : (layout start parts)[index]? = some segment) : start ≤ segment.start := by
  rw [layout_getElem?, Option.map_eq_some_iff] at there
  obtain ⟨part, -, rfl⟩ := there
  exact Nat.le_add_right _ _

theorem stop_le_of_layout {start index : Nat} {parts : List (Path × Nat)} {segment : Segment}
    (there : (layout start parts)[index]? = some segment) :
    segment.stop ≤ start + span parts := by
  induction parts generalizing start index with
  | nil => cases there
  | cons part rest ih =>
    obtain ⟨path, length⟩ := part
    rw [span_cons]
    cases index with
    | zero =>
      cases there
      exact Nat.add_le_add_left (Nat.le_add_right _ _) _
    | succ index =>
      rw [layout, List.getElem?_cons_succ] at there
      have inside := ih there
      dsimp only
      omega

/-- The segment that holds an offset is the one that is found for it. -/
theorem owner?_layout_of_contains {start index offset : Nat} {parts : List (Path × Nat)}
    {segment : Segment} (there : (layout start parts)[index]? = some segment)
    (inside : segment.contains offset = true) :
    owner? (layout start parts) offset = some (index, segment) := by
  induction parts generalizing start index with
  | nil => cases there
  | cons part rest ih =>
    obtain ⟨path, length⟩ := part
    obtain ⟨lower, upper⟩ := (contains_iff segment offset).mp inside
    rw [layout, owner?_cons]
    cases index with
    | zero =>
      cases there
      rw [if_pos upper, if_pos inside]
    | succ index =>
      rw [layout, List.getElem?_cons_succ] at there
      have behind : ¬offset < (⟨path, start, length⟩ : Segment).stop :=
        Nat.not_lt.mpr (Nat.le_trans (le_start_of_layout there) lower)
      rw [if_neg behind, ih there]
      rfl

theorem owner?_layout_append (front back : List (Path × Nat)) (part : Path × Nat)
    (long : 0 < part.2) :
    owner? (layout 0 (front ++ part :: back)) (span front) =
      some (front.length, ⟨part.1, span front, part.2⟩) := by
  have there : (layout 0 (front ++ part :: back))[front.length]? =
      some ⟨part.1, span front, part.2⟩ := by
    rw [layout_getElem?]
    simp
  exact owner?_layout_of_contains there
    ((contains_iff _ _).mpr ⟨Nat.le_refl _, Nat.lt_add_of_pos_right long⟩)

theorem owner?_layout_eq_none {start : Nat} {parts : List (Path × Nat)} {offset : Nat}
    (h : start ≤ offset) :
    owner? (layout start parts) offset = none ↔ start + span parts ≤ offset := by
  induction parts generalizing start with
  | nil => simpa [layout, owner?, span, totalOf] using h
  | cons part rest ih =>
    obtain ⟨path, length⟩ := part
    rw [layout, owner?_cons, span_cons]
    by_cases before : offset < start + length
    · have inside : (⟨path, start, length⟩ : Segment).contains offset = true :=
        (contains_iff _ _).mpr ⟨h, before⟩
      rw [if_pos (show offset < (⟨path, start, length⟩ : Segment).stop from before),
        if_pos inside]
      simp only [reduceCtorEq, false_iff]
      omega
    · rw [if_neg (show ¬offset < (⟨path, start, length⟩ : Segment).stop from before),
        Option.map_eq_none_iff, ih (by omega)]
      dsimp only
      omega

end EvidencePages.Segment

/-!
# Entries by key

The first entry of a key is the one that counts. Which entries stand before,
behind or between them makes no difference if they have other keys.
-/

set_option autoImplicit false

namespace EvidencePages

section Lookup

variable {Key Value : Type} [BEq Key] [LawfulBEq Key] {entries : List (Key × Value)}

theorem lookup_cons_self (entry : Key × Value) (rest : List (Key × Value)) :
    List.lookup entry.1 (entry :: rest) = some entry.2 := by
  rw [List.lookup_cons, beq_self_eq_true]

theorem lookup_cons_of_ne {key : Key} {entry : Key × Value} (other : key ≠ entry.1)
    (rest : List (Key × Value)) : List.lookup key (entry :: rest) = rest.lookup key := by
  rw [List.lookup_cons, beq_eq_false_iff_ne.mpr other]

theorem lookup_eq_none_iff_not_mem {key : Key} :
    entries.lookup key = none ↔ key ∉ entries.map (·.1) := by
  rw [List.lookup_eq_none_iff, List.mem_map]
  constructor
  · rintro missing ⟨entry, listed, rfl⟩
    exact bne_iff_ne.mp (missing entry listed) rfl
  · intro missing entry listed
    exact bne_iff_ne.mpr fun same => missing ⟨entry, listed, same.symm⟩

theorem lookup_of_mem (distinct : (entries.map (·.1)).Nodup) {entry : Key × Value}
    (listed : entry ∈ entries) : entries.lookup entry.1 = some entry.2 := by
  obtain ⟨front, back, rfl⟩ := List.append_of_mem listed
  rw [List.map_append, List.map_cons, List.nodup_append] at distinct
  have apart : entry.1 ∉ front.map (·.1) := fun early =>
    distinct.2.2 _ early _ List.mem_cons_self rfl
  rw [List.lookup_append, lookup_eq_none_iff_not_mem.mpr apart, Option.none_or, lookup_cons_self]

theorem lookup_concat [DecidableEq Key] {last : Key} (apart : last ∉ entries.map (·.1))
    (value : Value) (key : Key) :
    (entries ++ [(last, value)]).lookup key =
      if key = last then some value else entries.lookup key := by
  rw [List.lookup_append]
  by_cases same : key = last
  · rw [if_pos same, same, lookup_eq_none_iff_not_mem.mpr apart, Option.none_or]
    exact lookup_cons_self (last, value) []
  · rw [if_neg same, lookup_cons_of_ne same, List.lookup_nil, Option.or_none]

theorem lookup_filter_ne [DecidableEq Key] {key left : Key} (other : key ≠ left) :
    (entries.filter fun entry => entry.1 ≠ left).lookup key = entries.lookup key := by
  induction entries with
  | nil => rfl
  | cons entry rest ih =>
    by_cases same : entry.1 = left
    · rw [List.filter_cons_of_neg (by simpa using same), ih,
        lookup_cons_of_ne (same.symm ▸ other)]
    · rw [List.filter_cons_of_pos (by simpa using same), List.lookup_cons, List.lookup_cons, ih]

theorem lookup_reverse [DecidableEq Key] (distinct : (entries.map (·.1)).Nodup) (key : Key) :
    entries.reverse.lookup key = entries.lookup key := by
  induction entries with
  | nil => rfl
  | cons entry rest ih =>
    obtain ⟨apart, more⟩ := List.nodup_cons.mp distinct
    have before : entry.1 ∉ rest.reverse.map (·.1) := by
      rwa [List.map_reverse, List.mem_reverse]
    rw [List.reverse_cons, lookup_concat before, ih more]
    split
    · rename_i same
      rw [same, lookup_cons_self]
    · rename_i other
      rw [lookup_cons_of_ne other]

theorem lookup_filter_values (distinct : (entries.map (·.1)).Nodup) (holds : Value → Bool)
    (key : Key) :
    (entries.filter fun entry => holds entry.2).lookup key =
      (entries.lookup key).filter holds := by
  induction entries with
  | nil => rfl
  | cons entry rest ih =>
    obtain ⟨apart, more⟩ := List.nodup_cons.mp distinct
    rw [List.filter_cons]
    by_cases same : key = entry.1
    · have behind : (rest.filter fun entry => holds entry.2).lookup key = none := by
        rw [ih more, same, lookup_eq_none_iff_not_mem.mpr apart]
        rfl
      rw [same] at behind ⊢
      rw [lookup_cons_self, Option.filter_some]
      split
      · exact lookup_cons_self entry _
      · exact behind
    · rw [lookup_cons_of_ne same, ← ih more]
      split
      · exact lookup_cons_of_ne same _
      · rfl

end Lookup

end EvidencePages

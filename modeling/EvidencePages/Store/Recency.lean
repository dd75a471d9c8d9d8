/-!
# Entries in order of use

A bounded table keyed by numbers, kept as a list with the most recently used
entry first. Using an entry moves it to the front, and room is made by
dropping the last one. The keys of the list are thus the order of recency
itself.
-/

set_option autoImplicit false

namespace EvidencePages.Recency

abbrev Entries (α : Type) := List (Nat × α)

variable {α : Type}

def keys (entries : Entries α) : List Nat := entries.map (·.1)

def find? (entries : Entries α) (key : Nat) : Option α := entries.lookup key

def without (entries : Entries α) (key : Nat) : Entries α := entries.filter (·.1 ≠ key)

/-- The entry of `key` moved to the front. -/
def touch (entries : Entries α) (key : Nat) (value : α) : Entries α :=
  (key, value) :: without entries key

/-- Fewer than `capacity` entries, as long as `capacity` is positive and was kept before. -/
def makeRoom (capacity : Nat) (entries : Entries α) : Entries α :=
  if capacity ≤ entries.length then entries.dropLast else entries

theorem keys_touch (entries : Entries α) (key : Nat) (value : α) :
    keys (touch entries key value) = key :: (keys entries).filter (· ≠ key) := by
  simp [keys, touch, without, List.filter_map, Function.comp_def]

end EvidencePages.Recency

import Mathlib.Data.List.Dedup
import EvidencePages.Proofs.Store.HandlePool

/-!
# A table and a queue of its keys

A bounded table may keep its values in one container and the order of use of
their keys in another, and a use, an addition and an eviction change the two in
separate steps. Both go on holding the same keys, and the queue starts with the
key that was used last. Entries kept in order of use are the same table.
-/

set_option autoImplicit false

namespace EvidencePages

/-- Values by their keys, of which the queue holds the one used last in front. -/
structure RecencyQueue (α : Type) where
  limit : Nat
  table : Std.HashMap Nat α := {}
  queue : List Nat := []

namespace RecencyQueue

variable {α : Type}

def evict (kept : RecencyQueue α) : RecencyQueue α :=
  if kept.limit ≤ kept.table.size then
    match kept.queue.getLast? with
    | none => kept
    | some oldest => { kept with table := kept.table.erase oldest, queue := kept.queue.dropLast }
  else kept

def use (kept : RecencyQueue α) (key : Nat) : RecencyQueue α :=
  { kept with queue := key :: kept.queue.filter (· ≠ key) }

def add (kept : RecencyQueue α) (key : Nat) (value : α) : RecencyQueue α :=
  { kept.evict with
    table := kept.evict.table.insert key value
    queue := key :: kept.evict.queue }

/-! ## Keys in order of use -/

section Order

variable {order queue : List Nat} {key : Nat}

theorem nodup_use (nodup : queue.Nodup) (key : Nat) :
    (key :: queue.filter (· ≠ key)).Nodup := by
  refine List.nodup_cons.mpr ⟨fun inside => ?_, nodup.filter _⟩
  simpa using (List.mem_filter.mp inside).2

theorem prefix_use (recent : queue <+: order) (key : Nat) :
    key :: queue.filter (· ≠ key) <+: key :: order.filter (· ≠ key) :=
  (List.prefix_cons_inj key).mpr (recent.filter _)

theorem filter_of_not_mem (missing : key ∉ queue) : queue.filter (· ≠ key) = queue :=
  List.filter_eq_self.mpr fun _ inside => decide_eq_true fun same => missing (same ▸ inside)

theorem not_mem_of_nodup_concat (nodup : (queue ++ [key]).Nodup) : key ∉ queue :=
  fun there =>
    (List.nodup_append.mp nodup).2.2 key there key (List.mem_singleton_self _) rfl

theorem length_filter_of_mem (nodup : queue.Nodup) (inside : key ∈ queue) :
    (queue.filter (· ≠ key)).length + 1 = queue.length := by
  have erased := nodup.erase_eq_filter key
  have length := List.length_erase_of_mem inside
  have positive := List.length_pos_of_mem inside
  have same : queue.filter (· ≠ key) = queue.erase key := by
    rw [erased]
    congr 1
    funext other
    by_cases other = key <;> simp [*]
  rw [same, length]
  omega

end Order

/-! ## Both containers hold the same keys -/

structure Agrees (kept : RecencyQueue α) : Prop where
  positive : 1 ≤ kept.limit
  nodup : kept.queue.Nodup
  held : ∀ key, key ∈ kept.queue ↔ key ∈ kept.table
  count : kept.table.size = kept.queue.length
  bounded : kept.queue.length ≤ kept.limit

variable {kept : RecencyQueue α} {key : Nat}

theorem agrees_nothing (limit : Nat) :
    Agrees { limit := max 1 limit : RecencyQueue α } where
  positive := Nat.le_max_left _ _
  nodup := List.nodup_nil
  held := by simp
  count := by simp
  bounded := Nat.zero_le _

theorem evict_limit (kept : RecencyQueue α) : kept.evict.limit = kept.limit := by
  unfold evict
  split
  · split <;> rfl
  · rfl

theorem add_limit (kept : RecencyQueue α) (key : Nat) (value : α) :
    (kept.add key value).limit = kept.limit :=
  kept.evict_limit

theorem Agrees.evict_cases (agrees : kept.Agrees) :
    kept.queue.length < kept.limit ∧ kept.evict = kept ∨
      ∃ left oldest, kept.queue = left ++ [oldest] ∧ kept.queue.length = kept.limit ∧
        kept.evict = { kept with table := kept.table.erase oldest, queue := left } := by
  have count := agrees.count
  have bounded := agrees.bounded
  unfold evict
  by_cases full : kept.limit ≤ kept.table.size
  · have positive := agrees.positive
    have some : kept.queue ≠ [] := by
      intro none
      rw [none, List.length_nil] at count
      omega
    have cut := List.dropLast_concat_getLast some
    refine .inr ⟨kept.queue.dropLast, kept.queue.getLast some, cut.symm, by omega, ?_⟩
    rw [if_pos full, List.getLast?_eq_some_getLast some]
  · exact .inl ⟨by omega, if_neg full⟩

theorem Agrees.evict (agrees : kept.Agrees) : kept.evict.Agrees := by
  rcases agrees.evict_cases with ⟨-, same⟩ | ⟨left, oldest, queue, -, evicted⟩
  · rw [same]
    exact agrees
  have nodup := agrees.nodup
  have held := agrees.held
  have count := agrees.count
  have bounded := agrees.bounded
  rw [queue] at nodup count bounded
  simp only [queue] at held
  have apart : oldest ∉ left := not_mem_of_nodup_concat nodup
  rw [List.length_append, List.length_singleton] at count bounded
  rw [evicted]
  refine ⟨agrees.positive, (List.nodup_append.mp nodup).1, fun key => ?_, ?_,
    Nat.le_of_succ_le bounded⟩
  · rw [Std.HashMap.mem_erase, ← held key, List.mem_append, List.mem_singleton]
    constructor
    · intro there
      have other : oldest ≠ key := fun same => apart (same ▸ there)
      exact ⟨by simpa using other, .inl there⟩
    · rintro ⟨other, there | same⟩
      · exact there
      · simp [same] at other
  · have there : oldest ∈ kept.table :=
      (held oldest).mp (List.mem_append_right _ (List.mem_singleton_self _))
    change (kept.table.erase oldest).size = left.length
    rw [Std.HashMap.size_erase, if_pos there]
    omega

theorem Agrees.evict_room (agrees : kept.Agrees) : kept.evict.queue.length < kept.limit := by
  rcases agrees.evict_cases with ⟨room, same⟩ | ⟨left, oldest, queue, full, evicted⟩
  · rw [same]
    exact room
  · rw [queue, List.length_append, List.length_singleton] at full
    rw [evicted]
    change left.length < kept.limit
    omega

theorem Agrees.evict_prefix (agrees : kept.Agrees) : kept.evict.queue <+: kept.queue := by
  rcases agrees.evict_cases with ⟨-, same⟩ | ⟨left, oldest, queue, -, evicted⟩
  · exact same.symm ▸ List.prefix_rfl
  · rw [evicted, queue]
    exact List.prefix_append _ _

theorem Agrees.held_iff (agrees : kept.Agrees) (key : Nat) :
    key ∈ kept.queue ↔ kept.table[key]?.isSome = true := by
  rw [agrees.held, Std.HashMap.mem_iff_isSome_getElem?]

theorem Agrees.not_mem_evict (agrees : kept.Agrees) (miss : kept.table[key]? = none) :
    key ∉ kept.evict.queue := by
  intro queued
  have before := (agrees.held_iff key).mp (agrees.evict_prefix.subset queued)
  rw [miss] at before
  cases before

theorem Agrees.getElem?_evict (agrees : kept.Agrees) (other : Nat) :
    kept.evict.table[other]? =
      if other ∈ kept.queue ∧ other ∉ kept.evict.queue then none else kept.table[other]? := by
  rcases agrees.evict_cases with ⟨-, same⟩ | ⟨left, oldest, queue, -, evicted⟩
  · rw [same, if_neg (fun gone => gone.2 gone.1)]
  have nodup := agrees.nodup
  rw [queue] at nodup
  have apart : oldest ∉ left := not_mem_of_nodup_concat nodup
  rw [evicted, queue]
  dsimp only
  rw [Std.HashMap.getElem?_erase]
  by_cases same : other = oldest
  · rw [same, if_pos (by simp), if_pos ⟨by simp, apart⟩]
  · rw [if_neg (by simpa using fun back => same back.symm), if_neg]
    rintro ⟨inside, gone⟩
    rcases List.mem_append.mp inside with there | last
    · exact gone there
    · exact same (List.mem_singleton.mp last)

theorem Agrees.length_use (agrees : kept.Agrees) (inside : key ∈ kept.queue) :
    (kept.use key).queue.length = kept.queue.length :=
  length_filter_of_mem agrees.nodup inside

theorem Agrees.use (agrees : kept.Agrees) (inside : key ∈ kept.queue) :
    (kept.use key).Agrees where
  positive := agrees.positive
  nodup := nodup_use agrees.nodup key
  held other := by
    change other ∈ key :: kept.queue.filter (· ≠ key) ↔ other ∈ kept.table
    rw [List.mem_cons, List.mem_filter, ← agrees.held other]
    by_cases same : other = key
    · simp [same, inside]
    · simp [same]
  count := agrees.count.trans (agrees.length_use inside).symm
  bounded := Nat.le_trans (Nat.le_of_eq (agrees.length_use inside)) agrees.bounded

theorem Agrees.add (agrees : kept.Agrees) (miss : kept.table[key]? = none) (value : α) :
    (kept.add key value).Agrees := by
  have room := agrees.evict
  have missing := agrees.not_mem_evict miss
  refine ⟨room.positive, List.nodup_cons.mpr ⟨missing, room.nodup⟩, fun other => ?_, ?_, ?_⟩
  · change other ∈ key :: kept.evict.queue ↔ other ∈ kept.evict.table.insert key value
    rw [List.mem_cons, room.held, Std.HashMap.mem_insert, beq_iff_eq, eq_comm]
  · change (kept.evict.table.insert key value).size = kept.evict.queue.length + 1
    rw [Std.HashMap.size_insert, if_neg (fun held => missing ((room.held key).mpr held)),
      room.count]
  · change kept.evict.queue.length + 1 ≤ kept.evict.limit
    rw [evict_limit]
    exact agrees.evict_room

/-! ## The keys used last -/

variable {order : List Nat}

theorem Agrees.add_prefix (agrees : kept.Agrees) (miss : kept.table[key]? = none) (value : α)
    (recent : kept.queue <+: order) :
    (kept.add key value).queue <+: key :: order.filter (· ≠ key) := by
  have moved := prefix_use (agrees.evict_prefix.trans recent) key
  rwa [filter_of_not_mem (agrees.not_mem_evict miss)] at moved

theorem Agrees.use_full (agrees : kept.Agrees) (inside : key ∈ kept.queue)
    (nodup : order.Nodup) (recent : kept.queue <+: order)
    (full : kept.queue.length = min kept.limit order.length) :
    (kept.use key).queue.length = min kept.limit (key :: order.filter (· ≠ key)).length := by
  have used := length_filter_of_mem nodup (recent.subset inside)
  rw [agrees.length_use inside, full, List.length_cons, used]

theorem Agrees.add_full (agrees : kept.Agrees) (miss : kept.table[key]? = none) (value : α)
    (recent : kept.queue <+: order) (full : kept.queue.length = min kept.limit order.length) :
    (kept.add key value).queue.length =
      min kept.limit (key :: order.filter (· ≠ key)).length := by
  have longer := (agrees.add_prefix miss value recent).length_le
  have room := agrees.evict_room
  have length : (kept.add key value).queue.length = kept.evict.queue.length + 1 := rfl
  rcases agrees.evict_cases with ⟨short, same⟩ | ⟨left, oldest, queue, whole, evicted⟩
  · -- all that was ever used is still there, and the key is new
    have all : kept.queue = order := recent.eq_of_length (by omega)
    have missing : key ∉ order := by
      rw [← all, ← same]
      exact agrees.not_mem_evict miss
    rw [length, same, all, List.length_cons, filter_of_not_mem missing]
    rw [all] at short
    omega
  · have left : kept.evict.queue.length + 1 = kept.limit := by
      rw [evicted, ← whole, queue, List.length_append]
      rfl
    omega

/-! ## Entries in order of use -/

structure Mirrors (entries : Recency.Entries α) (kept : RecencyQueue α) : Prop where
  keys : Recency.keys entries = kept.queue
  found : ∀ key, Recency.find? entries key = kept.table[key]?

variable {entries : Recency.Entries α}

theorem Mirrors.length_eq (mirrors : Mirrors entries kept) :
    entries.length = kept.queue.length := by
  rw [← mirrors.keys, Recency.keys, List.length_map]

theorem Mirrors.evict (mirrors : Mirrors entries kept) (agrees : kept.Agrees) :
    Mirrors (Recency.makeRoom kept.limit entries) kept.evict := by
  have count := mirrors.length_eq
  rcases agrees.evict_cases with ⟨room, same⟩ | ⟨left, oldest, queue, full, evicted⟩
  · have roomy : Recency.makeRoom kept.limit entries = entries := by
      rw [Recency.makeRoom, if_neg (by omega)]
    rw [roomy, same]
    exact mirrors
  · have keys := mirrors.keys
    rw [queue] at keys
    obtain ⟨front, last, cut, rest, key⟩ := List.map_eq_append_iff.mp keys
    obtain ⟨⟨key', value⟩, rfl, rfl⟩ := List.map_eq_singleton_iff.mp key
    have nodup := agrees.nodup
    rw [queue] at nodup
    have apart : key' ∉ Recency.keys front := by
      rw [Recency.keys, rest]
      exact not_mem_of_nodup_concat nodup
    have dropped : Recency.makeRoom kept.limit entries = front := by
      rw [Recency.makeRoom, if_pos (by omega), cut, List.dropLast_concat]
    rw [dropped, evicted]
    refine ⟨rest, fun index => ?_⟩
    have found := mirrors.found index
    rw [cut, Recency.find?_concat apart] at found
    rw [Std.HashMap.getElem?_erase]
    by_cases same : index = key'
    · rw [if_pos (by simpa using same.symm), same]
      exact Recency.find?_eq_none_iff.mpr apart
    · rw [if_neg same] at found
      rw [if_neg (by simpa using fun back => same back.symm)]
      exact found

theorem Mirrors.use (mirrors : Mirrors entries kept) {value : α}
    (hit : kept.table[key]? = some value) :
    Mirrors (Recency.touch entries key value) (kept.use key) := by
  refine ⟨?_, fun other => ?_⟩
  · rw [Recency.keys_touch, mirrors.keys]
    rfl
  · rw [Recency.find?_touch]
    split
    · rename_i same
      rw [same]
      exact hit.symm
    · exact mirrors.found other

theorem Mirrors.add (mirrors : Mirrors entries kept) (agrees : kept.Agrees) (key : Nat)
    (value : α) :
    Mirrors ((key, value) :: Recency.makeRoom kept.limit entries) (kept.add key value) := by
  have room := mirrors.evict agrees
  refine ⟨congrArg (key :: ·) room.keys, fun other => ?_⟩
  change _ = (kept.evict.table.insert key value)[other]?
  rw [Recency.find?_cons, Std.HashMap.getElem?_insert]
  by_cases same : other = key
  · rw [if_pos same, same, beq_self_eq_true, if_pos rfl]
  · rw [if_neg same, if_neg (by simpa using fun back => same back.symm)]
    exact room.found other

end RecencyQueue

end EvidencePages

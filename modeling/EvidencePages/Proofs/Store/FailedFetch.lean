import EvidencePages.Proofs.Store.HandleQueue

/-!
# What a failed opening costs a pool

A part that is not in the pool and cannot be opened gives the cause of that.
The handles of the other parts and their order stay as they were if there was
room for one more, or if there is no such part. In a full pool the handle that
was used longest ago is closed for nothing, and what it went to may be out of
reach from then on.
-/

set_option autoImplicit false

namespace EvidencePages.HandlePool

structure Served (paths : List Path) (maxOpen : Nat) (pool : HandlePool) : Prop where
  paths : pool.paths = paths
  capacity : pool.capacity = max 1 maxOpen
  bounded : pool.openCount ≤ max 1 maxOpen
  inside : ∀ index handle, Recency.find? pool.handles index = some handle →
    index < pool.paths.length

theorem served (paths : List Path) (maxOpen : Nat) (calls : List HandleQueue.Call) :
    Served paths maxOpen ((ofPaths paths maxOpen).serve [] calls).2 := by
  have traced := (HandleQueue.traced_ofPaths paths maxOpen).serve calls
  obtain ⟨same, limit⟩ :=
    HandleQueue.settings_serve [] (HandleQueue.ofPaths paths maxOpen) calls
  obtain ⟨-, mirrors⟩ := (HandleQueue.mirrors_ofPaths paths maxOpen).serve
    (HandleQueue.traced_ofPaths paths maxOpen) calls
  rw [List.map_nil] at mirrors
  refine ⟨mirrors.paths.trans same, mirrors.capacity.trans limit, ?_, fun index handle held => ?_⟩
  · have bounded := traced.bounded
    rw [limit] at bounded
    exact Nat.le_trans (Nat.le_of_eq mirrors.kept.length_eq) bounded
  · rw [mirrors.found] at held
    rw [mirrors.paths]
    exact traced.inside index ((traced.held_iff index).mpr (by rw [held]; rfl))

variable {store : FileStore} {pool : HandlePool} {index : Nat}

theorem fetch_held {handle : Handle} (there : index < pool.paths.length)
    (held : Recency.find? pool.handles index = some handle) :
    (pool.fetch store index).1 = .ok handle := by
  rw [fetch, List.getElem?_eq_getElem there, held]

theorem fetch_outside (outside : pool.paths.length ≤ index) :
    pool.fetch store index = (.error (.indexOutOfRange index pool.paths.length), pool) := by
  rw [fetch, List.getElem?_eq_none outside]

theorem fetch_unopened {cause : IoError} (there : index < pool.paths.length)
    (missing : Recency.find? pool.handles index = none)
    (refused : fetched store pool.paths index = .error cause) :
    pool.fetch store index =
      (.error cause, { pool with handles := Recency.makeRoom pool.capacity pool.handles }) := by
  rw [fetched, List.getElem?_eq_getElem there] at refused
  rw [fetch, List.getElem?_eq_getElem there, missing]
  dsimp only at refused ⊢
  rw [refused]

theorem makeRoom_of_room (room : pool.openCount < pool.capacity) :
    Recency.makeRoom pool.capacity pool.handles = pool.handles :=
  if_neg (Nat.not_le.mpr room)

theorem makeRoom_of_full (full : pool.capacity ≤ pool.openCount) :
    ∃ oldest, pool.handles = Recency.makeRoom pool.capacity pool.handles ++ [oldest] := by
  have positive : 1 ≤ pool.capacity := Nat.le_max_left _ _
  have some : pool.handles ≠ [] := List.length_pos_iff.mp (Nat.lt_of_lt_of_le positive full)
  refine ⟨pool.handles.getLast some, ?_⟩
  rw [Recency.makeRoom, if_pos (show pool.capacity ≤ pool.handles.length from full),
    List.dropLast_concat_getLast]

/-- After any calls, over any states of the files, a part that cannot be opened and has no handle
in the pool gives the cause. It leaves the handles, their order and their number as they were if
and only if there is no such part or there was room for one more handle. In a full pool it costs
the handle that was used longest ago. -/
theorem failed_fetch_keeps_iff (paths : List Path) (maxOpen : Nat)
    (calls : List HandleQueue.Call) (store : FileStore) (index : Nat) {cause : IoError}
    (fails : fetched store paths index = .error cause) :
    let pool := ((ofPaths paths maxOpen).serve [] calls).2
    let result := pool.fetch store index
    (∀ handle, Recency.find? pool.handles index = some handle → result.1 = .ok handle) ∧
      (Recency.find? pool.handles index = none →
        result.1 = .error cause ∧
        (result.2 = pool ↔ paths.length ≤ index ∨ pool.openCount < max 1 maxOpen) ∧
        (index < paths.length → max 1 maxOpen ≤ pool.openCount →
          ∃ oldest handle, pool.handles = result.2.handles ++ [(oldest, handle)] ∧
            result.2.openCount + 1 = max 1 maxOpen)) := by
  intro pool result
  have reached : Served paths maxOpen pool := served paths maxOpen calls
  clear_value pool
  obtain ⟨rfl, capacity, bounded, inside⟩ := reached
  rw [← capacity] at bounded ⊢
  refine ⟨fun handle held => fetch_held (inside index handle held) held, fun missing => ?_⟩
  by_cases outside : pool.paths.length ≤ index
  · have stays : result = _ := fetch_outside outside
    rw [fetched, List.getElem?_eq_none outside] at fails
    rw [stays]
    refine ⟨fails, iff_of_true rfl (.inl outside), fun there => ?_⟩
    omega
  have there : index < pool.paths.length := Nat.not_le.mp outside
  have room : result = _ := fetch_unopened there missing fails
  rw [room]
  by_cases free : pool.openCount < pool.capacity
  · rw [makeRoom_of_room free]
    refine ⟨rfl, iff_of_true rfl (.inr free), fun _ full => ?_⟩
    omega
  · obtain ⟨⟨oldest, handle⟩, cut⟩ := makeRoom_of_full (Nat.not_lt.mp free)
    have shorter : (Recency.makeRoom pool.capacity pool.handles).length + 1 = pool.openCount := by
      rw [openCount]
      conv_rhs => rw [cut]
      rw [List.length_append, List.length_singleton]
    refine ⟨rfl, ⟨fun unchanged => ?_, fun kept => ?_⟩, fun _ full => ⟨oldest, handle, cut, ?_⟩⟩
    · have length := congrArg openCount unchanged
      change (Recency.makeRoom pool.capacity pool.handles).length = pool.openCount at length
      omega
    · exact absurd kept (not_or.mpr ⟨outside, free⟩)
    · exact shorter.trans (Nat.le_antisymm bounded full)

/-! ## A full pool -/

def firstPart : Path := ⟨"disk.000"⟩

def secondPart : Path := ⟨"disk.001"⟩

def missingPart : Path := ⟨"disk.002"⟩

def twoPresent : FileStore where
  entries := [
    (["work"], .directory),
    (["disk.000", "work"], .regular 0),
    (["disk.001", "work"], .regular 1)]
  contents := #[ofBytes [0x01, 0x02], ofBytes [0x03]]
  workingDirectory := ["work"]

def twoHeld : HandlePool :=
  ((ofPaths [firstPart, secondPart, missingPart] 2).serve []
    [⟨twoPresent, 0⟩, ⟨twoPresent, 1⟩, ⟨twoPresent, 0⟩]).2

theorem handles_twoHeld : twoHeld.handles = [(0, .file 0), (1, .file 1)] := by
  decide +kernel

theorem failed_fetch_of_missing :
    fetched twoPresent [firstPart, secondPart, missingPart] 2 = .error .notFound ∧
      Recency.find? twoHeld.handles 2 = none ∧
      (twoHeld.fetch twoPresent 2).1 = .error .notFound ∧
      (twoHeld.fetch twoPresent 2).2 ≠ twoHeld ∧
      (twoHeld.fetch twoPresent 2).2.handles = [(0, .file 0)] := by
  have fails : fetched twoPresent [firstPart, secondPart, missingPart] 2 = .error .notFound := by
    decide +kernel
  have missing : Recency.find? twoHeld.handles 2 = none := by
    rw [handles_twoHeld]
    rfl
  have count : twoHeld.openCount = 2 := congrArg List.length handles_twoHeld
  obtain ⟨-, unheld⟩ := failed_fetch_keeps_iff [firstPart, secondPart, missingPart] 2
    [⟨twoPresent, 0⟩, ⟨twoPresent, 1⟩, ⟨twoPresent, 0⟩] twoPresent 2 fails
  obtain ⟨given, keeps, costs⟩ := unheld missing
  refine ⟨fails, missing, given, fun unchanged => ?_, ?_⟩
  · rcases keeps.mp unchanged with outside | room
    · exact absurd outside (by decide)
    · exact absurd room (Nat.not_lt.mpr (Nat.le_of_eq count.symm))
  · obtain ⟨oldest, handle, cut, -⟩ := costs (by decide) (Nat.le_of_eq count.symm)
    have split : [(0, .file 0)] ++ [(1, .file 1)] =
        (twoHeld.fetch twoPresent 2).2.handles ++ [(oldest, handle)] :=
      handles_twoHeld.symm.trans cut
    exact (List.append_inj_left' split rfl).symm

def noneNamed : FileStore := { twoPresent with entries := [(["work"], .directory)] }

/-- The part that is missing takes the place of the one that is held, and what is removed then
cannot be read any more. -/
theorem failed_fetch_closes_held :
    let pool := ((ofPaths [firstPart, missingPart] 1).serve [] [⟨twoPresent, 0⟩]).2
    pool.handles = [(0, .file 0)] ∧
      (pool.fetch twoPresent 1).1 = .error .notFound ∧
      (pool.fetch twoPresent 1).2.handles = [] ∧
      (pool.fetch noneNamed 0).1 = .ok (.file 0) ∧
      ((pool.fetch twoPresent 1).2.fetch noneNamed 0).1 = .error .notFound := by
  decide +kernel

end EvidencePages.HandlePool

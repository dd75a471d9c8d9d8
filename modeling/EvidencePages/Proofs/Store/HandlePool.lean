import EvidencePages.Proofs.Lookup
import EvidencePages.Proofs.Store.PositionedRead
import EvidencePages.Store.HandlePool

/-!
# A pool answers as opening does

Every handle in a pool is one that opening its path would give. Each fetch
keeps that, by a hit, a miss or a failure, so the handle that a fetch gives
does not depend on what was fetched before.
-/

set_option autoImplicit false

namespace EvidencePages

namespace Recency

variable {α : Type}

theorem find?_cons (entries : Entries α) (key other : Nat) (value : α) :
    find? ((key, value) :: entries) other =
      if other = key then some value else find? entries other := by
  by_cases same : other = key
  · rw [if_pos same, same]
    exact lookup_cons_self (key, value) _
  · rw [if_neg same]
    exact lookup_cons_of_ne same _

theorem find?_touch (entries : Entries α) (key other : Nat) (value : α) :
    find? (touch entries key value) other =
      if other = key then some value else find? entries other := by
  rw [touch, find?_cons]
  split
  · rfl
  · rename_i apart
    exact lookup_filter_ne apart

theorem find?_of_dropLast {entries : Entries α} {key : Nat} {value : α}
    (found : find? entries.dropLast key = some value) : find? entries key = some value := by
  induction entries with
  | nil => simpa using found
  | cons entry rest ih =>
    cases rest with
    | nil => simp [find?] at found
    | cons next rest =>
      rw [List.dropLast_cons_of_ne_nil (List.cons_ne_nil _ _), find?, List.lookup_cons] at found
      rw [find?, List.lookup_cons]
      split at found
      · exact found
      · exact ih found

theorem find?_of_makeRoom {capacity : Nat} {entries : Entries α} {key : Nat} {value : α}
    (found : find? (makeRoom capacity entries) key = some value) :
    find? entries key = some value := by
  unfold makeRoom at found
  split at found
  · exact find?_of_dropLast found
  · exact found

theorem without_eq_self {entries : Entries α} {key : Nat} (missing : find? entries key = none) :
    without entries key = entries := by
  rw [find?, List.lookup_eq_none_iff] at missing
  apply List.filter_eq_self.mpr
  intro entry listed
  have other : key ≠ entry.1 := by simpa using missing entry listed
  simpa using other.symm

theorem find?_eq_none_iff {entries : Entries α} {key : Nat} :
    find? entries key = none ↔ key ∉ keys entries :=
  lookup_eq_none_iff_not_mem

theorem find?_concat {kept : Entries α} {oldest : Nat} (apart : oldest ∉ keys kept) (value : α)
    (key : Nat) :
    find? (kept ++ [(oldest, value)]) key =
      if key = oldest then some value else find? kept key :=
  lookup_concat apart value key

theorem touch_touch (entries : Entries α) (key : Nat) (value : α) :
    touch (touch entries key value) key value = touch entries key value := by
  simp [touch, without]

theorem touch_cons {entries : Entries α} {key : Nat} (missing : find? entries key = none)
    (value : α) : touch ((key, value) :: entries) key value = (key, value) :: entries := by
  have rest := without_eq_self missing
  simp only [touch, without] at rest ⊢
  rw [List.filter_cons_of_neg (by simp), rest]

end Recency

namespace HandlePool

def Sound (store : FileStore) (pool : HandlePool) : Prop :=
  ∀ index handle, Recency.find? pool.handles index = some handle →
    ∃ path, pool.paths[index]? = some path ∧ store.openFile path = .ok handle

theorem sound_ofPaths (store : FileStore) (paths : List Path) (maxOpen : Nat) :
    (ofPaths paths maxOpen).Sound store := by
  intro index handle found
  simp [ofPaths, Recency.find?] at found

theorem Sound.keeps {store later : FileStore} {pool : HandlePool} (sound : pool.Sound store)
    (keeps : store.Keeps later pool.paths) : pool.Sound later := by
  intro index handle found
  obtain ⟨path, there, opened⟩ := sound index handle found
  exact ⟨path, there, (keeps path (List.mem_of_getElem? there)).1.trans opened⟩

/-- What a fetch gives, with the path opened afresh. -/
def fetched (store : FileStore) (paths : List Path) (index : Nat) : Except IoError Handle :=
  match paths[index]? with
  | none => .error (.indexOutOfRange index paths.length)
  | some path => store.openFile path

theorem fetched_keeps {store later : FileStore} {paths : List Path}
    (keeps : store.Keeps later paths) (index : Nat) :
    fetched later paths index = fetched store paths index := by
  unfold fetched
  cases there : paths[index]? with
  | none => rfl
  | some path => exact (keeps path (List.mem_of_getElem? there)).1

theorem sameThrough_of_fetched {store later : FileStore} {paths : List Path}
    (keeps : store.Keeps later paths) {index : Nat} {handle : Handle}
    (opened : fetched store paths index = .ok handle) : store.SameThrough later handle := by
  unfold fetched at opened
  cases there : paths[index]? with
  | none =>
    rw [there] at opened
    cases opened
  | some path =>
    rw [there] at opened
    exact keeps.sameThrough (List.mem_of_getElem? there) opened

theorem fetch_eq {store : FileStore} {pool : HandlePool} (sound : pool.Sound store)
    (index : Nat) :
    ∃ handles, fetch store pool index =
        (fetched store pool.paths index, { pool with handles }) ∧
      Sound store { pool with handles } := by
  unfold fetch fetched
  cases there : pool.paths[index]? with
  | none => exact ⟨_, rfl, sound⟩
  | some path =>
    cases hit : Recency.find? pool.handles index with
    | some handle =>
      obtain ⟨path', there', opened⟩ := sound index handle hit
      obtain rfl : path = path' := Option.some.inj (there.symm.trans there')
      refine ⟨Recency.touch pool.handles index handle, by simp only [opened], ?_⟩
      intro other value found
      change Recency.find? (Recency.touch pool.handles index handle) other = some value at found
      rw [Recency.find?_touch] at found
      split at found
      · rename_i same
        cases found
        exact ⟨path, same ▸ there, opened⟩
      · exact sound other value found
    | none =>
      cases opened : store.openFile path with
      | error cause =>
        refine ⟨Recency.makeRoom pool.capacity pool.handles, by simp only [opened], ?_⟩
        intro other value found
        exact sound other value (Recency.find?_of_makeRoom found)
      | ok handle =>
        refine ⟨(index, handle) :: Recency.makeRoom pool.capacity pool.handles,
          by simp only [opened], ?_⟩
        intro other value found
        rw [Recency.find?_cons] at found
        split at found
        · rename_i same
          cases found
          exact ⟨path, same ▸ there, opened⟩
        · exact sound other value (Recency.find?_of_makeRoom found)

theorem fetch_latest {store : FileStore} {pool : HandlePool} {handles : Recency.Entries Handle}
    {index : Nat} {path : Path} {handle : Handle} (there : pool.paths[index]? = some path)
    (hit : Recency.find? handles index = some handle)
    (latest : Recency.touch handles index handle = handles) :
    fetch store { pool with handles } index = (.ok handle, { pool with handles }) := by
  simp only [fetch, there, hit, latest]

theorem fetch_again {store : FileStore} {pool next : HandlePool} {index : Nat} {handle : Handle}
    (fetched : fetch store pool index = (.ok handle, next)) :
    fetch store next index = (.ok handle, next) := by
  unfold fetch at fetched
  cases there : pool.paths[index]? with
  | none =>
    rw [there] at fetched
    cases fetched
  | some path =>
    rw [there] at fetched
    cases hit : Recency.find? pool.handles index with
    | some old =>
      rw [hit] at fetched
      cases fetched
      have kept : Recency.find? (Recency.touch pool.handles index handle) index = some handle := by
        rw [Recency.find?_touch, if_pos rfl]
      exact fetch_latest there kept (Recency.touch_touch _ _ _)
    | none =>
      rw [hit] at fetched
      dsimp only at fetched
      cases opened : store.openFile path with
      | error cause =>
        rw [opened] at fetched
        cases fetched
      | ok given =>
        rw [opened] at fetched
        cases fetched
        have dropped :
            Recency.find? (Recency.makeRoom pool.capacity pool.handles) index = none := by
          cases kept : Recency.find? (Recency.makeRoom pool.capacity pool.handles) index with
          | none => rfl
          | some value =>
            rw [Recency.find?_of_makeRoom kept] at hit
            cases hit
        have kept : Recency.find? ((index, handle) ::
            Recency.makeRoom pool.capacity pool.handles) index = some handle := by
          rw [Recency.find?_cons, if_pos rfl]
        exact fetch_latest there kept (Recency.touch_cons dropped _)

/-! ## Pools with room for every handle -/

/-- The handles of the first `count` parts are in the pool, and not more handles than that. -/
structure Holds (pool : HandlePool) (count : Nat) : Prop where
  few : pool.handles.length ≤ count
  each : ∀ part < count, (Recency.find? pool.handles part).isSome

theorem Holds.fetch {store : FileStore} {pool : HandlePool} {count : Nat}
    (holds : pool.Holds count) (room : count < pool.maxOpen) {handle : Handle}
    (opened : (pool.fetch store count).1 = .ok handle) :
    (pool.fetch store count).2.Holds (count + 1) := by
  -- With room for one more nothing is dropped.
  have kept : Recency.makeRoom pool.capacity pool.handles = pool.handles := by
    have few := holds.few
    rw [Recency.makeRoom, if_neg]
    rw [capacity]
    omega
  unfold HandlePool.fetch at opened ⊢
  cases there : pool.paths[count]? with
  | none =>
    rw [there] at opened
    cases opened
  | some path =>
    cases hit : Recency.find? pool.handles count with
    | some old =>
      refine ⟨?_, ?_⟩
      · exact Nat.succ_le_succ (Nat.le_trans (List.length_filter_le _ _) holds.few)
      · intro part within
        dsimp only
        rw [Recency.find?_touch]
        split
        · rfl
        · exact holds.each part (by omega)
    | none =>
      rw [there, hit, kept] at opened
      dsimp only at opened ⊢
      rw [kept]
      cases found : store.openFile path with
      | error cause =>
        rw [found] at opened
        cases opened
      | ok given =>
        refine ⟨Nat.succ_le_succ holds.few, ?_⟩
        intro part within
        rw [Recency.find?_cons]
        split
        · rfl
        · exact holds.each part (by omega)

end HandlePool

end EvidencePages

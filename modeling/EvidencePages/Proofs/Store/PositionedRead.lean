import EvidencePages.Proofs.Bytes
import EvidencePages.Store.Reading

/-!
# What positioned reads deliver

A read of a regular file gives a beginning of the range that was asked for,
of a length that the host chooses, and never nothing where there is a byte.
Reads repeated until the range is full therefore give all of it, whatever the
host chooses.
-/

set_option autoImplicit false

namespace EvidencePages.FileStore

/-! ## Opening a path -/

theorem openFile_of_find_error {store : FileStore} {path : Path} {cause : IoError}
    (missing : store.find path = .error cause) : store.openFile path = .error cause := by
  rw [find] at missing
  rw [openFile]
  cases there : store.resolve path with
  | error _ =>
    rw [there] at missing
    cases missing
    rfl
  | ok location =>
    rw [there] at missing
    dsimp only at missing ⊢
    cases held : store.node? location with
    | none =>
      rw [held] at missing
      cases missing
      rfl
    | some node =>
      rw [held] at missing
      cases missing

theorem openFile_of_find_regular {store : FileStore} {path : Path} {id : Nat}
    (there : store.find path = .ok (.regular id)) : store.openFile path = .ok (.file id) := by
  rw [find] at there
  rw [openFile]
  cases reached : store.resolve path with
  | error _ =>
    rw [reached] at there
    cases there
  | ok location =>
    rw [reached] at there
    dsimp only at there ⊢
    cases held : store.node? location with
    | none =>
      rw [held] at there
      cases there
    | some node =>
      rw [held] at there
      cases there
      rfl

theorem exists_find_of_openFile {store : FileStore} {path : Path} {handle : Handle}
    (opened : store.openFile path = .ok handle) : ∃ node, store.find path = .ok node := by
  cases there : store.find path with
  | error cause =>
    rw [openFile_of_find_error there] at opened
    cases opened
  | ok node => exact ⟨node, rfl⟩

/-! ## The share of one read -/

theorem share_le (store : FileStore) (handle : Handle) (offset available : Nat) :
    store.share handle offset available ≤ available :=
  Nat.min_le_left _ _

theorem share_pos (store : FileStore) (handle : Handle) (offset : Nat) {available : Nat}
    (h : 0 < available) : 0 < store.share handle offset available := by
  unfold share
  omega

theorem readFault?_file {store : FileStore} {id : Nat} (granted : store.refusal (.file id) = none) :
    store.readFault? (.file id) = none :=
  granted

theorem readAt_of_fault {store : FileStore} {handle : Handle} {cause : IoError}
    (fault : store.readFault? handle = some cause) {offset length : Nat}
    (inside : offset + length < offsetLimit) :
    store.readAt handle offset length = .error cause := by
  rw [readAt, if_neg (Nat.not_le.mpr inside), fault]

theorem readAt_eq_ok_iff {store : FileStore} {handle : Handle} {offset length : Nat}
    {bytes : ByteArray} :
    store.readAt handle offset length = .ok bytes ↔ offset + length < offsetLimit ∧
      store.readFault? handle = none ∧ store.portion handle offset length = bytes := by
  rw [readAt]
  by_cases outside : offsetLimit ≤ offset + length
  · rw [if_pos outside]
    simp [Nat.not_lt.mpr outside]
  · rw [if_neg outside]
    cases store.readFault? handle <;> simp [Nat.not_le.mp outside]

/-! ## One read -/

/-- What a handle has in a range. -/
def extent (store : FileStore) (handle : Handle) (offset length : Nat) : ByteArray :=
  match handle with
  | .directory _ | .device .null => .empty
  | .device .zero => zeros length
  | .file id => slice (store.content id) offset length

theorem size_portion_le (store : FileStore) (handle : Handle) (offset length : Nat) :
    (store.portion handle offset length).size ≤ length := by
  cases handle with
  | directory location => exact Nat.zero_le _
  | device kind =>
    cases kind with
    | null => exact Nat.zero_le _
    | zero =>
      rw [portion, size_zeros]
      exact store.share_le _ _ _
  | file id =>
    have bound := store.share_le (.file id) offset (min length ((store.content id).size - offset))
    rw [portion, size_slice]
    omega

theorem extent_of_size_portion {store : FileStore} {handle : Handle} {offset length : Nat}
    (asked : length ≠ 0) (nothing : (store.portion handle offset length).size = 0) :
    store.extent handle offset length = .empty := by
  cases handle with
  | directory location => rfl
  | device kind =>
    cases kind with
    | null => rfl
    | zero =>
      have progress := store.share_pos (.device .zero) offset (Nat.pos_of_ne_zero asked)
      rw [portion, size_zeros] at nothing
      omega
  | file id =>
    have past : (store.content id).size ≤ offset := by
      refine Nat.le_of_not_lt fun inside => ?_
      have some : 0 < min length ((store.content id).size - offset) := by omega
      have progress := store.share_pos (.file id) offset some
      rw [portion, size_slice] at nothing
      omega
    exact slice_of_size_le past length

theorem portion_append_extent (store : FileStore) (handle : Handle) (offset length : Nat) :
    store.portion handle offset length ++
        store.extent handle (offset + (store.portion handle offset length).size)
          (length - (store.portion handle offset length).size) =
      store.extent handle offset length := by
  cases handle with
  | directory location => rfl
  | device kind =>
    cases kind with
    | null => rfl
    | zero =>
      have bound := store.share_le (.device .zero) offset length
      rw [portion, extent, extent, size_zeros, zeros_append_zeros, Nat.add_sub_cancel' bound]
  | file id =>
    have bound := store.share_le (.file id) offset (min length ((store.content id).size - offset))
    have size : (slice (store.content id) offset (store.share (.file id) offset
        (min length ((store.content id).size - offset)))).size =
        store.share (.file id) offset (min length ((store.content id).size - offset)) := by
      rw [size_slice]
      omega
    rw [portion, extent, extent, size, slice_append_slice, Nat.add_sub_cancel' (by omega)]

/-! ## Repeated reads -/

/-- What repeated reads of a range come to, of whatever the handle goes to. -/
def delivered (store : FileStore) (handle : Handle) (offset length : Nat) :
    Except IoError ByteArray :=
  if length = 0 then .ok .empty
  else if offsetLimit ≤ offset + length then .error .invalidArgument
  else
    match store.readFault? handle with
    | some cause => .error cause
    | none => .ok (store.extent handle offset length)

theorem extent_zero (store : FileStore) (handle : Handle) (offset : Nat) :
    store.extent handle offset 0 = .empty := by
  cases handle with
  | directory location => rfl
  | device kind => cases kind <;> rfl
  | file id => exact slice_zero_length _ _

theorem readFull_of_granted {store : FileStore} {handle : Handle}
    (granted : store.readFault? handle = none) {offset length : Nat}
    (inside : offset + length < offsetLimit) :
    store.readFull handle offset length = .ok (store.extent handle offset length) := by
  induction length using Nat.strongRecOn generalizing offset with
  | ind length ih =>
    rw [readFull]
    by_cases none : length = 0
    · rw [if_pos none, none, extent_zero]
    have bound := store.size_portion_le handle offset length
    rw [if_neg none, readAt_eq_ok_iff.mpr ⟨inside, granted, rfl⟩]
    dsimp only
    by_cases last : (store.portion handle offset length).size = 0
    · rw [if_pos last, extent_of_size_portion none last]
    · rw [if_neg last, ih _ (by omega) (by omega)]
      dsimp only
      rw [portion_append_extent]

theorem readFull_file {store : FileStore} {id : Nat} (granted : store.refusal (.file id) = none)
    {offset length : Nat} (inside : offset + length < offsetLimit) :
    store.readFull (.file id) offset length = .ok (slice (store.content id) offset length) :=
  readFull_of_granted (readFault?_file granted) inside

theorem readFull_eq_delivered (store : FileStore) (handle : Handle) (offset length : Nat) :
    store.readFull handle offset length = store.delivered handle offset length := by
  unfold delivered
  by_cases none : length = 0
  · rw [readFull, if_pos none, if_pos none]
  rw [if_neg none]
  by_cases outside : offsetLimit ≤ offset + length
  · rw [readFull, if_neg none, readAt, if_pos outside, if_pos outside]
  have inside : offset + length < offsetLimit := Nat.not_le.mp outside
  rw [if_neg outside]
  cases fault : store.readFault? handle with
  | none => exact readFull_of_granted fault inside
  | some cause => rw [readFull, if_neg none, readAt_of_fault fault inside]

theorem readFull_eq_ok_iff {store : FileStore} {handle : Handle} {offset length : Nat}
    {bytes : ByteArray} :
    store.readFull handle offset length = .ok bytes ↔
      (length ≠ 0 → offset + length < offsetLimit ∧ store.readFault? handle = none) ∧
        store.extent handle offset length = bytes := by
  rw [readFull_eq_delivered, delivered]
  by_cases none : length = 0
  · rw [if_pos none, none, extent_zero]
    simp
  rw [if_neg none]
  by_cases outside : offsetLimit ≤ offset + length
  · rw [if_pos outside]
    simp [none, Nat.not_lt.mpr outside]
  · rw [if_neg outside]
    cases store.readFault? handle <;> simp [none, Nat.not_le.mp outside]

theorem size_extent_le (store : FileStore) (handle : Handle) (offset length : Nat) :
    (store.extent handle offset length).size ≤ length := by
  cases handle with
  | directory location => exact Nat.zero_le _
  | device kind =>
    cases kind with
    | null => exact Nat.zero_le _
    | zero => exact Nat.le_of_eq (size_zeros length)
  | file id => exact size_slice_le _ _ _

theorem size_readFull_le {store : FileStore} {handle : Handle} {offset length : Nat}
    {bytes : ByteArray} (read : store.readFull handle offset length = .ok bytes) :
    bytes.size ≤ length := by
  obtain ⟨-, rfl⟩ := readFull_eq_ok_iff.mp read
  exact store.size_extent_le handle offset length

theorem size_readAt_le {store : FileStore} {handle : Handle} {offset length : Nat}
    {bytes : ByteArray} (read : store.readAt handle offset length = .ok bytes) :
    bytes.size ≤ length := by
  obtain ⟨-, -, rfl⟩ := readAt_eq_ok_iff.mp read
  exact store.size_portion_le handle offset length

/-- After a read that gave something, the reads that are left bring the rest and do not fail. -/
theorem readFull_of_readAt {store : FileStore} {handle : Handle} {offset length : Nat}
    {bytes : ByteArray} (read : store.readAt handle offset length = .ok bytes)
    (delivering : bytes.size ≠ 0) :
    ∃ rest, store.readFull handle (offset + bytes.size) (length - bytes.size) = .ok rest ∧
      store.readFull handle offset length = .ok (bytes ++ rest) := by
  have bound := size_readAt_le read
  obtain ⟨inside, granted, -⟩ := readAt_eq_ok_iff.mp read
  have left := readFull_of_granted granted
    (show offset + bytes.size + (length - bytes.size) < offsetLimit by omega)
  refine ⟨_, left, ?_⟩
  rw [readFull, if_neg (by omega), read]
  dsimp only
  rw [if_neg delivering, left]

/-- Reads through the handle stop before `stop`, a file position, with no error. -/
def EndsBefore (store : FileStore) (handle : Handle) (stop : Nat) : Prop :=
  stop < offsetLimit ∧ store.readFault? handle = none ∧
    match handle with
    | .file id => (store.content id).size < stop
    | .device .null => True
    | .device .zero | .directory _ => False

theorem readFull_of_endsBefore {store : FileStore} {handle : Handle} {offset length : Nat}
    (ends : store.EndsBefore handle (offset + length)) (asked : length ≠ 0) :
    ∃ bytes, store.readFull handle offset length = .ok bytes ∧ bytes.size < length := by
  obtain ⟨inside, granted, ends⟩ := ends
  refine ⟨_, readFull_of_granted granted inside, ?_⟩
  cases handle with
  | directory location => exact ends.elim
  | device kind =>
    cases kind with
    | zero => exact ends.elim
    | null => exact Nat.pos_of_ne_zero asked
  | file id =>
    rw [extent, size_slice]
    dsimp only at ends
    omega

theorem size_readFull {store : FileStore} {handle : Handle} {offset length : Nat}
    {bytes : ByteArray} (read : store.readFull handle offset length = .ok bytes)
    (reaches : ¬store.EndsBefore handle (offset + length)) : bytes.size = length := by
  obtain ⟨served, rfl⟩ := readFull_eq_ok_iff.mp read
  by_cases none : length = 0
  · rw [none, extent_zero]
    rfl
  obtain ⟨inside, granted⟩ := served none
  cases handle with
  | directory location => cases granted
  | device kind =>
    cases kind with
    | null => exact absurd ⟨inside, granted, trivial⟩ reaches
    | zero => exact size_zeros length
  | file id =>
    have long : ¬(store.content id).size < offset + length :=
      fun less => reaches ⟨inside, granted, less⟩
    rw [extent, size_slice]
    omega

/-! ## Files that stay as they are -/

def bytesAt (store : FileStore) (path : Path) : ByteArray :=
  match store.openFile path with
  | .ok (.file id) => store.content id
  | _ => .empty

/-- A regular file at the path that can be read, of a size that every offset in it is a file
position. -/
def HasFile (store : FileStore) (path : Path) : Prop :=
  ∃ id, store.openFile path = .ok (.file id) ∧ store.refusal (.file id) = none ∧
    (store.content id).size < offsetLimit

/-- What the handle goes to is the same in both stores, and so is whether it can be read. -/
structure SameThrough (store later : FileStore) (handle : Handle) : Prop where
  held : later.held handle = store.held handle
  length : later.length handle = store.length handle
  refusal : later.refusal handle = store.refusal handle

/-- The later store has the same files at these paths, with the same bytes in them. What it holds
elsewhere and how it divides its reads may differ. -/
def Keeps (store later : FileStore) (paths : List Path) : Prop :=
  ∀ path ∈ paths, later.openFile path = store.openFile path ∧
    ∀ handle, store.openFile path = .ok handle → store.SameThrough later handle

theorem Keeps.refl (store : FileStore) (paths : List Path) : store.Keeps store paths :=
  fun _ _ => ⟨rfl, fun _ _ => ⟨rfl, rfl, rfl⟩⟩

theorem Keeps.symm {store later : FileStore} {paths : List Path}
    (keeps : store.Keeps later paths) : later.Keeps store paths := by
  intro path h
  obtain ⟨same, through⟩ := keeps path h
  refine ⟨same.symm, fun handle opened => ?_⟩
  obtain ⟨held, length, refusal⟩ := through handle (same.symm.trans opened)
  exact ⟨held.symm, length.symm, refusal.symm⟩

theorem Keeps.sameThrough {store later : FileStore} {paths : List Path}
    (keeps : store.Keeps later paths) {path : Path} (h : path ∈ paths) {handle : Handle}
    (opened : store.openFile path = .ok handle) : store.SameThrough later handle :=
  (keeps path h).2 handle opened

theorem SameThrough.content {store later : FileStore} {id : Nat}
    (same : store.SameThrough later (.file id)) : later.content id = store.content id :=
  same.held

theorem SameThrough.readFault?_eq {store later : FileStore} {handle : Handle}
    (same : store.SameThrough later handle) :
    later.readFault? handle = store.readFault? handle := by
  cases handle with
  | directory location => rfl
  | device kind => exact same.refusal
  | file id => exact same.refusal

theorem SameThrough.readFull_eq {store later : FileStore} {handle : Handle}
    (same : store.SameThrough later handle) (offset length : Nat) :
    later.readFull handle offset length = store.readFull handle offset length := by
  have extent : later.extent handle offset length = store.extent handle offset length := by
    cases handle with
    | directory location => rfl
    | device kind => cases kind <;> rfl
    | file id => exact congrArg (slice · offset length) same.content
  rw [readFull_eq_delivered, readFull_eq_delivered, delivered, delivered, same.readFault?_eq,
    extent]

theorem Keeps.bytesAt_eq {store later : FileStore} {paths : List Path}
    (keeps : store.Keeps later paths) {path : Path} (h : path ∈ paths) :
    later.bytesAt path = store.bytesAt path := by
  obtain ⟨opened, through⟩ := keeps path h
  unfold bytesAt
  rw [opened]
  split
  · exact (through _ ‹_›).content
  · rfl

theorem Keeps.hasFile {store later : FileStore} {paths : List Path}
    (keeps : store.Keeps later paths) {path : Path} (h : path ∈ paths)
    (has : store.HasFile path) : later.HasFile path := by
  obtain ⟨id, opened, granted, size⟩ := has
  obtain ⟨same, through⟩ := keeps path h
  have through := through _ opened
  exact ⟨id, same.trans opened, through.refusal.trans granted, by rw [through.content]; exact size⟩

theorem HasFile.opened {store : FileStore} {path : Path} (has : store.HasFile path) :
    ∃ id, store.openFile path = .ok (.file id) ∧ store.refusal (.file id) = none ∧
      store.content id = store.bytesAt path ∧ (store.bytesAt path).size < offsetLimit := by
  obtain ⟨id, opened, granted, size⟩ := has
  have content : store.bytesAt path = store.content id := by rw [bytesAt, opened]
  exact ⟨id, opened, granted, content.symm, by rw [content]; exact size⟩

end EvidencePages.FileStore

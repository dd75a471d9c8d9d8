import EvidencePages.Proofs.Raw.PartVisits

/-!
# Reading a split image

Where the parts are as they were at opening, a positioned read of the image
gives the bytes that the parts hold end to end. A part that is lost fails every
read that reaches it, at the first byte of it that was asked for, and leaves
the others as they are. The invariant over the pieces of a read is that every
pooled handle is the one that opening its part would give.
-/

set_option autoImplicit false

namespace EvidencePages

def FileStore.concatenation (store : FileStore) (paths : List Path) : ByteArray :=
  joined (paths.map store.bytesAt)

theorem FileStore.Keeps.concatenation_eq {store later : FileStore} {paths : List Path}
    (keeps : store.Keeps later paths) :
    later.concatenation paths = store.concatenation paths := by
  have same : paths.map later.bytesAt = paths.map store.bytesAt :=
    List.map_congr_left fun _ h => keeps.bytesAt_eq h
  rw [concatenation, same, concatenation]

namespace SplitIndex

def sizedParts (store : FileStore) (paths : List Path) : List (Path × Nat) :=
  paths.map fun path => (path, (store.bytesAt path).size)

theorem span_sizedParts (store : FileStore) (paths : List Path) :
    Segment.span (sizedParts store paths) = (store.concatenation paths).size := by
  rw [FileStore.concatenation, size_joined, Segment.span, sizedParts, List.map_map, List.map_map]
  rfl

theorem owner_sizedParts {store : FileStore} {paths : List Path} {offset part : Nat}
    {segment : Segment}
    (found : Segment.owner? (Segment.layout 0 (sizedParts store paths)) offset =
      some (part, segment)) :
    paths[part]? = some segment.path ∧ segment.length = (store.bytesAt segment.path).size ∧
      segment.start = (store.concatenation (paths.take part)).size ∧
      segment.start ≤ offset ∧ offset < segment.start + segment.length := by
  obtain ⟨there, lower, upper⟩ := Segment.owner?_eq_some found
  rw [Segment.layout_getElem?, sizedParts, List.getElem?_map, Option.map_map,
    Option.map_eq_some_iff] at there
  obtain ⟨path, there, rfl⟩ := there
  refine ⟨there, rfl, ?_, lower, upper⟩
  rw [← span_sizedParts, sizedParts, List.map_take]
  exact Nat.zero_add _

end SplitIndex

/-! ## Lost parts -/

/-- The later store cannot open the lost files and keeps the other ones of these. -/
structure FileStore.Loses (store later : FileStore) (paths lost : List Path) : Prop where
  gone : ∀ path ∈ lost, ∃ cause, later.openFile path = .error cause
  kept : ∀ path ∈ paths, path ∉ lost → store.Keeps later [path]

theorem FileStore.Loses.nothing (store : FileStore) (paths : List Path) :
    store.Loses store paths [] where
  gone := by simp
  kept := fun _ _ _ => FileStore.Keeps.refl _ _

namespace Segment

def LostAt (segments : List Segment) (lost : List Path) (position : Nat) : Prop :=
  ∃ segment ∈ segments, segment.contains position = true ∧ segment.path ∈ lost

theorem LostAt.owner {parts : List (Path × Nat)} {lost : List Path} {position index : Nat}
    {segment : Segment} (gone : LostAt (layout 0 parts) lost position)
    (there : (layout 0 parts)[index]? = some segment)
    (inside : segment.contains position = true) : segment.path ∈ lost := by
  obtain ⟨other, listed, holds, path⟩ := gone
  obtain ⟨number, there'⟩ := List.getElem?_of_mem listed
  have same := (owner?_layout_of_contains there inside).symm.trans
    (owner?_layout_of_contains there' holds)
  cases same
  exact path

/-- The first byte of a range that is in a lost part, and the segment of that part. -/
structure FirstLost (segments : List Segment) (lost : List Path) (offset length : Nat)
    (segment : Segment) (position : Nat) : Prop where
  lower : offset ≤ position
  upper : position < offset + length
  listed : segment ∈ segments
  holds : segment.contains position = true
  gone : segment.path ∈ lost
  before : ∀ earlier, offset ≤ earlier → earlier < position → ¬LostAt segments lost earlier

/-- What a read of a range comes to: its bytes of the content, or the failure to open the part of
the first of them that is lost. -/
inductive Localized (later : FileStore) (segments : List Segment) (lost : List Path)
    (content : ByteArray) (offset length : Nat) : Except ImageError ByteArray → Prop
  | whole (intact : ∀ position, offset ≤ position → position < offset + length →
      ¬LostAt segments lost position) :
      Localized later segments lost content offset length (.ok (slice content offset length))
  | fault {segment : Segment} {position : Nat} {cause : IoError}
      (first : FirstLost segments lost offset length segment position)
      (failed : later.openFile segment.path = .error cause) :
      Localized later segments lost content offset length (.error (.read position (.io cause)))

/-- A beginning that is not lost, and what the read of the rest comes to. -/
theorem Localized.behind {later : FileStore} {segments : List Segment} {lost : List Path}
    {content : ByteArray} {offset length wanted : Nat} {result : Except ImageError ByteArray}
    (intact : ∀ position, offset ≤ position → position < offset + wanted →
      ¬LostAt segments lost position) (reach : wanted ≤ length)
    (rest : Localized later segments lost content (offset + wanted) (length - wanted) result) :
    Localized later segments lost content offset length
      (result.map (slice content offset wanted ++ ·)) := by
  cases rest with
  | whole behind =>
    have joined : slice content offset wanted ++ slice content (offset + wanted) (length - wanted) =
        slice content offset length := by
      rw [slice_append_slice, Nat.add_sub_cancel' reach]
    rw [Except.map, joined]
    refine .whole fun position lower upper => ?_
    by_cases early : position < offset + wanted
    · exact intact position lower early
    · exact behind position (by omega) (by omega)
  | fault first failed =>
    obtain ⟨lower, upper, listed, holds, gone, before⟩ := first
    refine .fault ⟨by omega, by omega, listed, holds, gone, fun earlier low high => ?_⟩ failed
    by_cases early : earlier < offset + wanted
    · exact intact earlier low early
    · exact before earlier (by omega) high

end Segment

namespace SplitIndex

theorem readFull_kept {store later : FileStore} {paths : List Path} {offset part wanted : Nat}
    {segment : Segment}
    (found : Segment.owner? (Segment.layout 0 (sizedParts store paths)) offset =
      some (part, segment))
    (file : store.HasFile segment.path) (kept : store.Keeps later [segment.path])
    (reach : wanted ≤ segment.length - (offset - segment.start)) :
    ∃ handle, later.openFile segment.path = .ok handle ∧
      later.readFull handle (offset - segment.start) wanted =
        .ok (slice (store.concatenation paths) offset wanted) ∧
      (slice (store.concatenation paths) offset wanted).size = wanted := by
  obtain ⟨there, extent, start, lower, upper⟩ := owner_sizedParts found
  obtain ⟨id, opened, granted, content, small⟩ := (kept.hasFile List.mem_cons_self file).opened
  rw [kept.bytesAt_eq List.mem_cons_self] at content small
  have located : (paths.map store.bytesAt)[part]? = some (store.bytesAt segment.path) := by
    rw [List.getElem?_map, there, Option.map_some]
  have piece : slice (store.bytesAt segment.path) (offset - segment.start) wanted =
      slice (store.concatenation paths) offset wanted := by
    rw [← slice_joined located (by omega), ← List.map_take, ← FileStore.concatenation,
      ← FileStore.concatenation, ← start, Nat.add_sub_cancel' lower]
  refine ⟨.file id, opened, ?_, ?_⟩
  · rw [FileStore.readFull_file granted (by omega), content, piece]
  · rw [← piece, size_slice]
    omega

theorem readPieces_localized {store later : FileStore} {paths lost : List Path}
    (loses : store.Loses later paths lost) (files : ∀ path ∈ paths, store.HasFile path)
    {pool : HandlePool} (pooled : pool.paths = paths) (sound : pool.Sound later)
    (offset length : Nat) :
    let segments := Segment.layout 0 (sizedParts store paths)
    let visited := readPieces later pool (Segment.pieces segments offset length)
    Segment.Localized later segments lost (store.concatenation paths) offset length visited.1 ∧
      visited.2.paths = paths ∧ visited.2.Sound later := by
  dsimp only
  -- On the length: the rest behind the first piece is the range that starts where the piece ends.
  induction length using Nat.strongRecOn generalizing pool offset with
  | ind length ih =>
    by_cases empty : length = 0
    · rw [empty, Segment.pieces_zero, readPieces,
        ← slice_zero_length (store.concatenation paths) offset]
      exact ⟨.whole fun position lower upper => by omega, pooled, sound⟩
    cases found : Segment.owner? (Segment.layout 0 (sizedParts store paths)) offset with
    | none =>
      rw [Segment.pieces_of_no_owner found, readPieces]
      rw [Segment.owner?_layout_eq_none (Nat.zero_le _)] at found
      have past : slice (store.concatenation paths) offset length = .empty := by
        rw [slice_of_size_le]
        rw [← span_sizedParts]
        omega
      rw [← past]
      refine ⟨.whole fun position lower upper gone => ?_, pooled, sound⟩
      obtain ⟨segment, listed, holds, -⟩ := gone
      obtain ⟨index, there⟩ := List.getElem?_of_mem listed
      have stop := Segment.stop_le_of_layout there
      have inside := (Segment.contains_iff _ _).mp holds
      omega
    | some owner =>
      obtain ⟨part, segment⟩ := owner
      obtain ⟨there, lower, upper⟩ := Segment.owner?_eq_some found
      have stops : segment.stop = segment.start + segment.length := rfl
      have path := (owner_sizedParts found).1
      generalize reach : min length (segment.length - (offset - segment.start)) = wanted
      have pieces := Segment.pieces_eq_cons empty found reach.symm
      obtain ⟨handles, fetch, sound⟩ := HandlePool.fetch_eq sound part
      have opening : HandlePool.fetched later pool.paths part = later.openFile segment.path := by
        rw [HandlePool.fetched, pooled, path]
      have pooled : ({ pool with handles } : HandlePool).paths = paths := pooled
      rw [opening] at fetch
      rw [pieces]
      by_cases gone : segment.path ∈ lost
      · obtain ⟨cause, failed⟩ := loses.gone _ gone
        rw [failed] at fetch
        rw [readPieces_of_unfetched fetch]
        have holds : segment.contains offset = true := (Segment.contains_iff _ _).mpr ⟨lower, upper⟩
        have first : Segment.FirstLost (Segment.layout 0 (sizedParts store paths)) lost offset
            length segment offset :=
          ⟨Nat.le_refl _, by omega, List.mem_of_getElem? there, holds, gone,
            fun earlier low high => absurd low (Nat.not_le_of_lt high)⟩
        exact ⟨.fault first failed, pooled, sound⟩
      · have listed := List.mem_of_getElem? path
        obtain ⟨handle, opened, read, size⟩ := readFull_kept found (files _ listed)
          (loses.kept _ listed gone) (show wanted ≤ _ by omega)
        rw [opened] at fetch
        rw [readPieces_of_whole fetch read (by dsimp only; omega)]
        obtain ⟨rest, pooled, sound⟩ :=
          ih (length - wanted) (by omega) pooled sound (offset + wanted)
        refine ⟨rest.behind ?_ (by omega), pooled, sound⟩
        intro position low high lost
        have holds : segment.contains position = true :=
          (Segment.contains_iff _ _).mpr (by omega)
        exact gone (lost.owner there holds)

/-! ## Parts as they were at opening -/

/-- The index of these parts: their segments end to end, and a pool of handles to them. -/
structure Over (store : FileStore) (paths : List Path) (index : SplitIndex) : Prop where
  laid : index.segments = Segment.layout 0 (sizedParts store paths)
  pooled : index.pool.paths = paths
  sound : index.pool.Sound store

theorem Over.keeps {store later : FileStore} {paths : List Path} {index : SplitIndex}
    (covered : Over store paths index) (keeps : store.Keeps later paths) :
    Over later paths index where
  laid := by
    rw [covered.laid, sizedParts, sizedParts]
    congr 1
    exact List.map_congr_left fun _ h => by rw [keeps.bytesAt_eq h]
  pooled := covered.pooled
  sound := covered.sound.keeps (covered.pooled ▸ keeps)

theorem Over.size_eq {store : FileStore} {paths : List Path} {index : SplitIndex}
    (covered : Over store paths index) : index.size = (store.concatenation paths).size := by
  rw [size, covered.laid, Segment.total_layout_zero, span_sizedParts]

theorem read_eq {store : FileStore} {paths : List Path} {index : SplitIndex}
    (covered : Over store paths index) (files : ∀ path ∈ paths, store.HasFile path)
    (offset length : Nat) :
    ∃ last, read store index offset length =
        (.ok (slice (store.concatenation paths) offset length), last) ∧
      Over store paths last := by
  obtain ⟨segments, pool⟩ := index
  obtain ⟨rfl, pooled, sound⟩ := covered
  obtain ⟨localized, pooled, sound⟩ :=
    readPieces_localized (FileStore.Loses.nothing store paths) files pooled sound offset length
  rw [read_eq_readPieces]
  refine ⟨⟨Segment.layout 0 (sizedParts store paths), _⟩, ?_, rfl, pooled, sound⟩
  dsimp only
  congr 1
  generalize (readPieces store pool _).1 = result at localized ⊢
  cases localized with
  | whole => rfl
  | fault first => cases first.gone

end SplitIndex

end EvidencePages

import EvidencePages.Proofs.Image.ByteAddressed
import EvidencePages.Proofs.Raw.SplitRead

/-!
# Reads of a split image over changed files

The files of a split image may have shrunk or gone since it was opened. What a
read gives then depends on the files alone, as long as each pooled handle is
the one that opening its path would give.
-/

set_option autoImplicit false

namespace EvidencePages

namespace SplitIndex

/-- A read for which every handle is opened anew. -/
def afresh (store : FileStore) (segments : List Segment) (paths : List Path)
    (offset length : Nat) : Except ImageError ByteArray :=
  if length = 0 then .ok .empty
  else
    match Segment.owner? segments offset with
    | none => .ok .empty
    | some (part, segment) =>
      let within := offset - segment.start
      match HandlePool.fetched store paths part with
      | .error cause => .error (.read offset (.io cause))
      | .ok handle =>
        match store.readAt handle within (min length (segment.length - within)) with
        | .error cause => .error (.read offset (.io cause))
        | .ok bytes =>
          if bytes.size = 0 then .ok .empty
          else
            match afresh store segments paths (offset + bytes.size) (length - bytes.size) with
            | .error cause => .error cause
            | .ok rest => .ok (bytes ++ rest)
termination_by length

def withHandles (index : SplitIndex) (handles : Recency.Entries Handle) : SplitIndex :=
  { index with pool := { index.pool with handles } }

theorem read_eq_afresh {store : FileStore} {index : SplitIndex} (sound : index.pool.Sound store)
    (offset length : Nat) :
    ∃ handles, read store index offset length =
        (afresh store index.segments index.pool.paths offset length, index.withHandles handles) ∧
      (index.withHandles handles).pool.Sound store := by
  -- On the length, which every step shortens; the pool stays sound on the way.
  induction length using Nat.strongRecOn generalizing index offset with
  | ind length ih =>
    rw [read, afresh]
    by_cases none : length = 0
    · rw [if_pos none, if_pos none]
      exact ⟨_, rfl, sound⟩
    rw [if_neg none, if_neg none]
    cases Segment.owner? index.segments offset with
    | none => exact ⟨_, rfl, sound⟩
    | some owner =>
      obtain ⟨part, segment⟩ := owner
      obtain ⟨handles, fetch, kept⟩ := HandlePool.fetch_eq sound part
      dsimp only
      rw [fetch]
      cases HandlePool.fetched store index.pool.paths part with
      | error cause => exact ⟨handles, rfl, kept⟩
      | ok handle =>
        dsimp only
        cases store.readAt handle (offset - segment.start)
            (min length (segment.length - (offset - segment.start))) with
        | error cause => exact ⟨handles, rfl, kept⟩
        | ok bytes =>
          dsimp only
          by_cases last : bytes.size = 0
          · rw [if_pos last, if_pos last]
            exact ⟨handles, rfl, kept⟩
          rw [if_neg last, if_neg last]
          have next : (index.withHandles handles).pool.Sound store := kept
          obtain ⟨later, rest, final⟩ := ih (length - bytes.size) (by omega) next
            (offset + bytes.size)
          refine ⟨later, ?_, final⟩
          have tail : read store { index with pool := { index.pool with handles } }
              (offset + bytes.size) (length - bytes.size) =
                (afresh store index.segments index.pool.paths (offset + bytes.size)
                  (length - bytes.size), index.withHandles later) := rest
          rw [tail]
          cases afresh store index.segments index.pool.paths (offset + bytes.size)
              (length - bytes.size) <;> rfl

/-- Read afresh, a range gives its bytes or fails at the first of them that is lost. -/
theorem afresh_localized {store later : FileStore} {paths lost : List Path}
    (loses : store.Loses later paths lost) (files : ∀ path ∈ paths, store.HasFile path)
    (offset length : Nat) :
    Segment.Localized later (Segment.layout 0 (sizedParts store paths)) lost
      (store.concatenation paths) offset length
      (afresh later (Segment.layout 0 (sizedParts store paths)) paths offset length) := by
  have sound := HandlePool.sound_ofPaths later paths 1
  obtain ⟨localized, -, -⟩ := readPieces_localized loses files rfl sound offset length
  have opened : (SplitIndex.mk (Segment.layout 0 (sizedParts store paths))
    (.ofPaths paths 1)).pool.Sound later := sound
  obtain ⟨handles, read, -⟩ := read_eq_afresh opened offset length
  rw [read_eq_readPieces] at read
  have same : (readPieces later (.ofPaths paths 1) (Segment.pieces
      (Segment.layout 0 (sizedParts store paths)) offset length)).1 =
        afresh later (Segment.layout 0 (sizedParts store paths)) paths offset length :=
    congrArg Prod.fst read
  rwa [same] at localized

end SplitIndex

namespace RawImage

def withHandles (image : RawImage) (index : SplitIndex) (handles : Recency.Entries Handle) :
    RawImage :=
  { image with index := some (index.withHandles handles) }

def pageAfresh (store : FileStore) (image : RawImage) (index : SplitIndex) (cursor : Cursor) :
    Except ImageError (Option Page) :=
  let reading : Unit → Nat → Nat → Outcome Unit ByteArray := fun _ offset length =>
    { result := SplitIndex.afresh store index.segments index.pool.paths offset length, state := () }
  (ByteGeometry.readPage ⟨index.size, image.config.pageSize, image.config.margin⟩ reading ()
    cursor).result

variable {store : FileStore} {index : SplitIndex}
  {handles : Recency.Entries Handle}

theorem pread_withHandles (image : RawImage) (sound : (index.withHandles handles).pool.Sound store)
    (offset length : Nat) :
    ∃ later, (pread store (image.withHandles index handles) offset length).result =
        SplitIndex.afresh store index.segments index.pool.paths offset length ∧
      (pread store (image.withHandles index handles) offset length).state =
        image.withHandles index later ∧
      (index.withHandles later).pool.Sound store := by
  obtain ⟨later, read, kept⟩ := SplitIndex.read_eq_afresh sound offset length
  have opened : (image.withHandles index handles).index = some (index.withHandles handles) := rfl
  rw [pread, opened]
  dsimp only
  rw [read, Outcome.reporting_result, Outcome.reporting_state]
  exact ⟨later, rfl, rfl, kept⟩

theorem readPage_withHandles (image : RawImage)
    (sound : (index.withHandles handles).pool.Sound store) (cursor : Cursor) :
    ((image.withHandles index handles).readPage store cursor).result =
        image.pageAfresh store index cursor ∧
      ∃ later, ((image.withHandles index handles).readPage store cursor).state =
          image.withHandles index later ∧
        (index.withHandles later).pool.Sound store := by
  have geometry : (image.withHandles index handles).geometry =
    ⟨index.size, image.config.pageSize, image.config.margin⟩ := rfl
  rw [readPage, geometry, pageAfresh]
  generalize (⟨index.size, image.config.pageSize, image.config.margin⟩ : ByteGeometry) = geometry
  unfold ByteGeometry.readPage
  dsimp only
  split
  · exact ⟨rfl, handles, rfl, sound⟩
  split
  · exact ⟨rfl, handles, rfl, sound⟩
  obtain ⟨later, result, state, kept⟩ := image.pread_withHandles sound
    (geometry.offsetOf cursor) (geometry.windowAt (geometry.offsetOf cursor))
  rw [result]
  cases SplitIndex.afresh store index.segments index.pool.paths (geometry.offsetOf cursor)
      (geometry.windowAt (geometry.offsetOf cursor)) with
  | error cause => exact ⟨rfl, later, state, kept⟩
  | ok bytes => exact ⟨rfl, later, state, kept⟩

end RawImage

end EvidencePages

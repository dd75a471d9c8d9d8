import EvidencePages.Proofs.Image.WalkTotals
import EvidencePages.Store.Changes

/-!
# Walks over an image of which parts are missing

A part that is gone fails the pages whose windows reach into it and no others.
The walk yields one item for each block all the same: its cursor moves on by a
block after a failure as after a page.
-/

set_option autoImplicit false

namespace EvidencePages

namespace PageWalk

variable {store : FileStore} {image : Image} {page : Cursor → Except ImageError (Option Page)}
  {paging : Paging} {count : Nat} {items : Nat → Except ImageError Page}

/-- Before a block the walk yields the item of the block, be it a page or an error, and then stands
before the next one. -/
theorem next_fixed (fixed : image.Fixed store page paging count) {index : Nat}
    (inside : index < count) (given : page (paging.cursorAt index) = (items index).map some) :
    ∃ warnings, next store ⟨image, paging.cursorAt index⟩ =
      (some (items index),
        ⟨(image.readPage store (paging.cursorAt index)).state, paging.cursorAt (index + 1)⟩,
        warnings) := by
  have ended := Paging.atEnd_cursorAt fixed.counted index
  have result := (fixed.readPage_result (paging.cursorAt index)).trans given
  refine ⟨(image.readPage store (paging.cursorAt index)).warnings, ?_⟩
  rw [next, if_neg fun h => absurd (ended.mp h) (Nat.not_le_of_lt inside)]
  dsimp only
  rw [result, (fixed.next _).advance_eq]
  cases items index <;> rfl

theorem take_fixed (fixed : image.Fixed store page paging count)
    (given : ∀ index < count, page (paging.cursorAt index) = (items index).map some)
    (limit : Nat) :
    (take store limit (start image)).1 = (List.range (min limit count)).map items := by
  have steps : (take store limit ⟨image, paging.cursorAt 0⟩).1 =
      (List.range' 0 (min limit (count - 0))).map items := by
    refine take_of_steps (fun index walk => ∃ other : Image,
      other.Fixed store page paging count ∧ walk = ⟨other, paging.cursorAt index⟩)
      ?_ ?_ limit ⟨image, fixed, rfl⟩
    · rintro index inside walk ⟨other, fixed, rfl⟩
      obtain ⟨warnings, step⟩ := next_fixed fixed inside (given index inside)
      exact ⟨_, warnings, step, _, fixed.next _, rfl⟩
    · rintro index past walk ⟨other, fixed, rfl⟩
      rw [next, if_pos ((Paging.atEnd_cursorAt fixed.counted index).mpr past)]
  rw [start, fixed.first_eq, steps, Nat.sub_zero, List.range_eq_range']

end PageWalk

/-- What a walk gives for a block: an error if and only if the window of the block has a lost byte,
and then the failure to open the part of the first of them, and the page of the block else. -/
structure Page.Isolated (later : FileStore) (segments : List Segment) (lost : List Path)
    (content : ByteArray) (geometry : ByteGeometry) (block : Nat)
    (item : Except ImageError Page) : Prop where
  error_iff : (∃ cause, item = .error cause) ↔
    ∃ position, block * geometry.pageSize ≤ position ∧
      position < min (block * geometry.pageSize + (geometry.pageSize + geometry.margin))
        geometry.size ∧
      Segment.LostAt segments lost position
  error_at : ∀ cause, item = .error cause → ∃ segment position failure,
    Segment.FirstLost segments lost (block * geometry.pageSize)
        (geometry.windowAt (block * geometry.pageSize)) segment position ∧
      later.openFile segment.path = .error failure ∧ cause = .read position (.io failure)
  page : ∀ page, item = .ok page →
    page = Page.ofBlock content geometry.pageSize geometry.margin block

namespace SplitIndex

/-- What a walk gives for a block, if the block is read afresh. -/
def blockItem (store : FileStore) (segments : List Segment) (paths : List Path)
    (content : ByteArray) (geometry : ByteGeometry) (block : Nat) : Except ImageError Page :=
  let offset := block * geometry.pageSize
  let window := geometry.windowAt offset
  if bufferLimit ≤ window then .error (.bufferTooLarge window)
  else (afresh store segments paths offset window).map fun _ =>
    Page.ofBlock content geometry.pageSize geometry.margin block

variable {store later : FileStore} {paths lost : List Path} {geometry : ByteGeometry}

theorem blockItem_isolated (loses : store.Loses later paths lost)
    (files : ∀ path ∈ paths, store.HasFile path) {block : Nat}
    (inside : block * geometry.pageSize < geometry.size)
    (fits : geometry.windowAt (block * geometry.pageSize) < bufferLimit) :
    Page.Isolated later (Segment.layout 0 (sizedParts store paths)) lost
      (store.concatenation paths) geometry block
      (blockItem later (Segment.layout 0 (sizedParts store paths)) paths
        (store.concatenation paths) geometry block) := by
  have window : block * geometry.pageSize + geometry.windowAt (block * geometry.pageSize) =
      min (block * geometry.pageSize + (geometry.pageSize + geometry.margin)) geometry.size := by
    rw [ByteGeometry.windowAt]
    omega
  have localized := afresh_localized loses files (block * geometry.pageSize)
    (geometry.windowAt (block * geometry.pageSize))
  rw [blockItem, if_neg (Nat.not_le_of_lt fits)]
  generalize afresh later (Segment.layout 0 (sizedParts store paths)) paths
    (block * geometry.pageSize) (geometry.windowAt (block * geometry.pageSize)) = result
    at localized ⊢
  cases localized with
  | whole intact =>
    refine ⟨⟨?_, ?_⟩, ?_, ?_⟩
    · rintro ⟨cause, failed⟩
      cases failed
    · rintro ⟨position, lower, upper, gone⟩
      exact absurd gone (intact position lower (window ▸ upper))
    · intro cause failed
      cases failed
    · intro page given
      cases given
      rfl
  | @fault segment position cause first failed =>
    refine ⟨⟨fun _ => ?_, fun _ => ⟨_, rfl⟩⟩, ?_, ?_⟩
    · exact ⟨position, first.lower, window ▸ first.upper, segment, first.listed, first.holds,
        first.gone⟩
    · intro error same
      cases same
      exact ⟨segment, position, cause, first, failed, rfl⟩
    · intro page given
      cases given

end SplitIndex

namespace RawImage

theorem pageAfresh_cursorAt {store later : FileStore} {paths lost : List Path}
    (loses : store.Loses later paths lost) (files : ∀ path ∈ paths, store.HasFile path)
    (image : RawImage) {index : SplitIndex}
    (laid : index.segments = Segment.layout 0 (SplitIndex.sizedParts store paths))
    (pooled : index.pool.paths = paths) (positive : 0 < image.config.pageSize) {block : Nat}
    (inside : block * image.config.pageSize < index.size) :
    let geometry : ByteGeometry := ⟨index.size, image.config.pageSize, image.config.margin⟩
    image.pageAfresh later index (geometry.cursorAt block) =
      (SplitIndex.blockItem later index.segments paths (store.concatenation paths) geometry
        block).map some := by
  intro geometry
  have whole : geometry.size = (store.concatenation paths).size := by
    change Segment.total index.segments = _
    rw [laid, Segment.total_layout_zero, SplitIndex.span_sizedParts]
  have localized := SplitIndex.afresh_localized loses files (block * geometry.pageSize)
    (geometry.windowAt (block * geometry.pageSize))
  have some : geometry.windowAt (block * geometry.pageSize) ≠ 0 := by
    have inside : block * geometry.pageSize < geometry.size := inside
    have positive : 0 < geometry.pageSize := positive
    rw [ByteGeometry.windowAt]
    omega
  have offset := geometry.offsetOf_cursorAt inside
  rw [pageAfresh, SplitIndex.blockItem]
  change (geometry.readPage _ () _).result = _
  rw [ByteGeometry.readPage]
  dsimp only
  rw [offset, if_neg some, laid, pooled]
  split
  · rfl
  generalize SplitIndex.afresh later (Segment.layout 0 (SplitIndex.sizedParts store paths)) paths
    (block * geometry.pageSize) (geometry.windowAt (block * geometry.pageSize)) = result
    at localized ⊢
  cases localized with
  | fault first failed => rfl
  | whole intact =>
    dsimp only
    rw [ByteGeometry.pageOf_window whole positive (whole ▸ inside)]
    rfl

end RawImage

namespace PageWalk

theorem window_lt_of_isolated {store : FileStore} {image : Image} {geometry : ByteGeometry}
    {segments : List Segment} {lost : List Path} {content : ByteArray}
    {items : Nat → Except ImageError Page}
    (addressed : image.backend.paging? = some geometry) (positive : 0 < geometry.pageSize)
    (taken : (take store 1 (start image)).1 =
      (List.range (min 1 (pieceCount geometry.size geometry.pageSize))).map items)
    (isolated : ∀ block < pieceCount geometry.size geometry.pageSize,
      Page.Isolated store segments lost content geometry block (items block)) :
    geometry.windowAt 0 < bufferLimit := by
  refine Nat.lt_of_not_le fun wide => ?_
  have bytes : 0 < geometry.size := by
    have limit : 0 < bufferLimit := by decide
    rw [ByteGeometry.windowAt] at wide
    omega
  have more : 0 < pieceCount geometry.size geometry.pageSize := by
    rwa [lt_pieceCount positive, Nat.zero_mul]
  -- The first item of a wide walk is no failure at a lost byte.
  have item : items 0 = .error (.bufferTooLarge (geometry.windowAt 0)) :=
    Option.some.inj ((next_of_take taken more).symm.trans (next_of_wide store addressed wide))
  obtain ⟨segment, position, failure, -, -, same⟩ := (isolated 0 more).error_at _ item
  cases same

/-- Parts that are lost between opening and reading fail exactly the pages that reach into them. A
walk yields one item for each block, in order and once: the failure to open a part, at the first
lost byte of the window, or the page with the bytes that the parts held. That is so just when a
buffer can hold the first window. -/
theorem faults_stay_local_iff {store later : FileStore} {image opened : RawImage} {lost : List Path}
    (closed : image.index = none) (valid : image.config.validate = .ok ())
    (files : ∀ path ∈ RawImage.parts store image.path, store.HasFile path)
    (success : RawImage.openImage store image = .ok opened)
    (loses : store.Loses later (RawImage.parts store image.path) lost) :
    ∃ count, opened.geometry.blockCount? = some count ∧
      opened.segments =
        Segment.layout 0 (SplitIndex.sizedParts store (RawImage.parts store image.path)) ∧
      ((∃ items, (∀ limit, (take later limit (start ⟨.raw opened, image.config⟩)).1 =
          (List.range (min limit count)).map items) ∧
        ∀ block < count, Page.Isolated later opened.segments lost
          (store.concatenation (RawImage.parts store image.path)) opened.geometry block
          (items block)) ↔
        min (image.config.pageSize + image.config.margin) opened.size < bufferLimit) := by
  have counted := RawImage.counted_of_openImage closed files success
  have positive := (Config.validate_eq_ok.mp valid).1
  rw [RawImage.openImage_eq closed valid files counted] at success
  generalize RawImage.parts store image.path = paths at files loses success ⊢
  generalize indexed : SplitIndex.mk (Segment.layout 0 (SplitIndex.sizedParts store paths))
    (.ofPaths paths image.config.maxOpenFiles) = index at success
  have laid : index.segments = Segment.layout 0 (SplitIndex.sizedParts store paths) := by
    rw [← indexed]
  have pooled : index.pool.paths = paths := by
    rw [← indexed]
    rfl
  have sound : index.pool.Sound later := by
    rw [← indexed]
    exact HandlePool.sound_ofPaths _ _ _
  cases success
  let opened : RawImage := { image with index := some index }
  have blocks : opened.geometry.blockCount? =
      some (pieceCount index.size image.config.pageSize) := if_neg (Nat.ne_of_gt positive)
  have fixed : Image.Fixed later ⟨.raw opened, image.config⟩ (opened.pageAfresh later index)
      (.bytes opened.geometry) (pieceCount index.size image.config.pageSize) :=
    ⟨opened.steady rfl sound image.config, rfl, blocks⟩
  have inside : ∀ block < pieceCount index.size image.config.pageSize,
      block * image.config.pageSize < index.size :=
    fun block => (lt_pieceCount positive _ _).mp
  refine ⟨_, blocks, laid, ?_, ?_⟩
  · rintro ⟨items, taken, isolated⟩
    have held : opened.geometry.windowAt 0 < bufferLimit :=
      window_lt_of_isolated rfl positive (taken 1) isolated
    exact held
  · intro held
    refine ⟨SplitIndex.blockItem later opened.segments paths (store.concatenation paths)
      opened.geometry, fun limit => ?_, fun block low => ?_⟩
    · have given := fun block low => RawImage.pageAfresh_cursorAt loses files opened laid pooled
        positive (inside block low)
      exact take_fixed fixed given limit
    · have narrower : opened.geometry.windowAt (block * opened.geometry.pageSize) ≤
          opened.geometry.windowAt 0 := by
        simp only [ByteGeometry.windowAt]
        omega
      have fits : opened.geometry.windowAt (block * opened.geometry.pageSize) < bufferLimit :=
        Nat.lt_of_le_of_lt narrower held
      have isolated := SplitIndex.blockItem_isolated loses files (inside block low) fits
      rwa [← laid] at isolated

def withoutThird : FileStore where
  entries := [
    (["work"], .directory),
    (["disk.000", "work"], .regular 0),
    (["disk.001", "work"], .regular 1)]
  contents := #[ofBytes [1, 2, 3], .empty, ofBytes [4, 5]]
  workingDirectory := ["work"]

def smallPagesImage : RawImage := { smallPages with index := some RawImage.threePartsIndex }

theorem lostAt_third (position : Nat) :
    Segment.LostAt smallPagesImage.segments [⟨"disk.002"⟩] position ↔
      3 ≤ position ∧ position < 5 := by
  have segments : smallPagesImage.segments =
    [⟨⟨"disk.000"⟩, 0, 3⟩, ⟨⟨"disk.001"⟩, 3, 0⟩, ⟨⟨"disk.002"⟩, 3, 2⟩] := rfl
  rw [segments]
  simp [Segment.LostAt, Segment.contains_iff, Segment.stop]

theorem failed_third {content : ByteArray} {block : Nat} {item : Except ImageError Page}
    (isolated : Page.Isolated withoutThird smallPagesImage.segments [⟨"disk.002"⟩] content
      smallPagesImage.geometry block item) (failed : ∃ cause, item = .error cause) :
    ∃ cause, item = .error (.read (max (block * 2) 3) (.io cause)) := by
  obtain ⟨cause, failed⟩ := failed
  obtain ⟨segment, position, failure, first, -, same⟩ := isolated.error_at cause failed
  have lower : block * 2 ≤ position := first.lower
  have here := (lostAt_third position).mp ⟨segment, first.listed, first.holds, first.gone⟩
  have least := first.before (max (block * 2) 3) (Nat.le_max_left _ _)
  rw [lostAt_third] at least
  have place : position = max (block * 2) 3 := by omega
  exact ⟨failure, by rw [failed, same, place]⟩

/-- The last part is removed: the first page is whole, and the two others, which reach into that
part, fail at the first byte of it that is in their windows. -/
theorem walk_without_third :
    smallPages.index = none ∧ smallPages.config.validate = .ok () ∧
      (∀ path ∈ RawImage.parts RawImage.threeParts smallPages.path,
        RawImage.threeParts.HasFile path) ∧
      RawImage.threeParts.remove ⟨"disk.002"⟩ = some withoutThird ∧
      RawImage.threeParts.Loses withoutThird (RawImage.parts RawImage.threeParts smallPages.path)
        [⟨"disk.002"⟩] ∧
      RawImage.openImage RawImage.threeParts smallPages = .ok smallPagesImage ∧
      ∃ items, (∀ limit,
          (take withoutThird limit (start ⟨.raw smallPagesImage, smallPages.config⟩)).1 =
            (List.range (min limit 3)).map items) ∧
        items 0 = .ok (Page.ofBlock (ofBytes [1, 2, 3, 4, 5]) 2 1 0) ∧
        (∃ cause, items 1 = .error (.read 3 (.io cause))) ∧
        ∃ cause, items 2 = .error (.read 4 (.io cause)) := by
  have closed : smallPages.index = none := rfl
  have loses : RawImage.threeParts.Loses withoutThird
      (RawImage.parts RawImage.threeParts smallPages.path) [⟨"disk.002"⟩] := by
    refine ⟨?_, RawImage.threeParts_each (fun _ => ?_) (fun _ => ?_) ?_⟩
    · intro path listed
      rw [List.mem_singleton.mp listed]
      exact ⟨_, rfl⟩
    · intro path listed
      rw [List.mem_singleton.mp listed]
      exact ⟨rfl, fun _ _ => ⟨rfl, rfl, rfl⟩⟩
    · intro path listed
      rw [List.mem_singleton.mp listed]
      exact ⟨rfl, fun _ _ => ⟨rfl, rfl, rfl⟩⟩
    · intro kept
      exact absurd List.mem_cons_self kept
  have success : RawImage.openImage RawImage.threeParts smallPages = .ok smallPagesImage := by rfl
  refine ⟨closed, rfl, RawImage.threeParts_files, by rfl, loses, success, ?_⟩
  obtain ⟨count, counted, -, walk_iff⟩ :=
    faults_stay_local_iff closed rfl RawImage.threeParts_files success loses
  obtain rfl : 3 = count := Option.some.inj counted
  obtain ⟨items, taken, isolated⟩ := walk_iff.mpr (by decide)
  refine ⟨items, taken, ?_, ?_, ?_⟩
  · have first := isolated 0 (by decide)
    cases item : items 0 with
    | error cause =>
      obtain ⟨position, -, upper, lost⟩ := first.error_iff.mp ⟨cause, item⟩
      have lower := ((lostAt_third position).mp lost).1
      exact absurd upper (Nat.not_lt_of_le lower)
    | ok page => exact congrArg Except.ok (first.page page item)
  · have second := isolated 1 (by decide)
    exact failed_third second
      (second.error_iff.mpr ⟨3, by decide, by decide, (lostAt_third 3).mpr (by decide)⟩)
  · have third := isolated 2 (by decide)
    exact failed_third third
      (third.error_iff.mpr ⟨4, by decide, by decide, (lostAt_third 4).mpr (by decide)⟩)

/-- A directory bears the name of the second part. -/
def directorySecond : FileStore where
  entries := [
    (["work"], .directory),
    (["disk.001", "work"], .regular 0),
    (["disk.002", "work"], .directory),
    (["note", "disk.002", "work"], .regular 1)]
  contents := #[ofBytes [1, 2, 3], ofBytes [4]]
  workingDirectory := ["work"]
  directoryLength := fun _ => 4096

def directorySecondImage : RawImage :=
  { path := ⟨"disk.001"⟩, config := { pageSize := 4, margin := 0, maxOpenFiles := 1 } }

def directorySecondIndex : SplitIndex where
  segments := [⟨⟨"disk.001"⟩, 0, 3⟩, ⟨⟨"disk.002"⟩, 3, 4096⟩]
  pool := .ofPaths [⟨"disk.001"⟩, ⟨"disk.002"⟩] 1

/-- Where a directory is taken for a part the pages that reach into it fail, though no part is
lost. -/
theorem walk_fails_at_directory :
    directorySecond.Loses directorySecond
        (RawImage.parts directorySecond directorySecondImage.path) [] ∧
      ∃ opened, RawImage.openImage directorySecond directorySecondImage = .ok opened ∧
        (∀ position, ¬Segment.LostAt opened.segments [] position) ∧
        (next directorySecond (start ⟨.raw opened, directorySecondImage.config⟩)).1 =
          some (.error (.read 3 (.io .isADirectory))) := by
  refine ⟨FileStore.Loses.nothing _ _,
    { directorySecondImage with index := some directorySecondIndex }, by rfl, ?_, ?_⟩
  · rintro position ⟨segment, -, -, gone⟩
    exact absurd gone List.not_mem_nil
  · have failed : ((next directorySecond (start ⟨.raw
        { directorySecondImage with index := some directorySecondIndex },
        directorySecondImage.config⟩)).1.map fun item => item.map fun page => page.bytes) =
          some (.error (.read 3 (.io .isADirectory))) := by
      decide +kernel
    obtain ⟨item, yielded, error⟩ := Option.map_eq_some_iff.mp failed
    rw [yielded]
    cases item with
    | ok page => cases error
    | error cause =>
      cases error
      rfl

end PageWalk

end EvidencePages

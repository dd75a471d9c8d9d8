import EvidencePages.Proofs.Image.ByteAddressed
import EvidencePages.Proofs.Paging.Tiling
import EvidencePages.Proofs.Raw.Pread

/-!
# A walk yields the pages of the content

When every window that a walk asks for is delivered in full, the walk yields
the page of each block, in order and once, and then ends. Before block `k` it
stands at the offset of that block, with the image as `k` reads have left it.
The first window is the largest. If no buffer can hold it the walk breaks off
there, and otherwise a buffer can hold each of them.
-/

set_option autoImplicit false

namespace EvidencePages

namespace ByteGeometry

def cursorAt (geometry : ByteGeometry) (index : Nat) : Cursor :=
  .atByte (min (index * geometry.pageSize) geometry.size)
    (geometry.size ≤ index * geometry.pageSize)

theorem first_eq_cursorAt (geometry : ByteGeometry) : geometry.first = geometry.cursorAt 0 := by
  simp [first, cursorAt]

theorem advance_cursorAt (geometry : ByteGeometry) (index : Nat) :
    geometry.advance (geometry.cursorAt index) = geometry.cursorAt (index + 1) := by
  have next : min (min (index * geometry.pageSize) geometry.size + geometry.pageSize)
      geometry.size = min ((index + 1) * geometry.pageSize) geometry.size := by
    rw [Nat.succ_mul]
    omega
  have atEnd : geometry.size ≤ min ((index + 1) * geometry.pageSize) geometry.size ↔
      geometry.size ≤ (index + 1) * geometry.pageSize := by
    omega
  simp only [advance, Cursor.stepBytes, cursorAt, Cursor.byteOffset?, Cursor.atByte,
    Option.getD_some, next, atEnd]

theorem offsetOf_cursorAt (geometry : ByteGeometry) {index : Nat}
    (inside : index * geometry.pageSize < geometry.size) :
    geometry.offsetOf (geometry.cursorAt index) = index * geometry.pageSize := by
  simp only [offsetOf, cursorAt, Cursor.atByte, Cursor.byteOffset?, Option.getD_some]
  omega

end ByteGeometry

namespace Image

def preadBlock (store : FileStore) (geometry : ByteGeometry) (image : Image) (index : Nat) :
    Outcome Image ByteArray :=
  image.pread store (index * geometry.pageSize) (geometry.windowAt (index * geometry.pageSize))

def afterBlocks (store : FileStore) (geometry : ByteGeometry) (image : Image) : Nat → Image
  | 0 => image
  | count + 1 => ((afterBlocks store geometry image count).preadBlock store geometry count).state

/-- The image is paged over bytes, and each window that a walk asks for is delivered in full. -/
structure Delivers (store : FileStore) (geometry : ByteGeometry) (image : Image)
    (content : ByteArray) : Prop where
  addressed : image.backend.paging? = some geometry
  whole : geometry.size = content.size
  full : ∀ index, index * geometry.pageSize < content.size →
    ((image.afterBlocks store geometry index).preadBlock store geometry index).result =
      .ok (slice content (index * geometry.pageSize)
        (geometry.windowAt (index * geometry.pageSize)))

variable {store : FileStore} {geometry : ByteGeometry} {image : Image} {content : ByteArray}

theorem afterBlocks_paging? (store : FileStore) (addressed : image.backend.paging? = some geometry)
    (count : Nat) : (image.afterBlocks store geometry count).backend.paging? = some geometry := by
  induction count with
  | zero => exact addressed
  | succ count ih => exact (Backend.pread_paging? _ _ _ _).trans ih

theorem readPage_block (delivers : image.Delivers store geometry content)
    (held : min (geometry.pageSize + geometry.margin) content.size < bufferLimit)
    (positive : 0 < geometry.pageSize) {index : Nat}
    (inside : index * geometry.pageSize < content.size) :
    ((image.afterBlocks store geometry index).readPage store (geometry.cursorAt index)).result =
        .ok (some (Page.ofBlock content geometry.pageSize geometry.margin index)) ∧
      ((image.afterBlocks store geometry index).readPage store (geometry.cursorAt index)).state =
        image.afterBlocks store geometry (index + 1) := by
  have offset := geometry.offsetOf_cursorAt (delivers.whole ▸ inside)
  have full := delivers.full index inside
  have fits : geometry.windowAt (index * geometry.pageSize) < bufferLimit := by
    rw [ByteGeometry.windowAt, delivers.whole]
    omega
  have some : geometry.windowAt (index * geometry.pageSize) ≠ 0 := by
    rw [ByteGeometry.windowAt, delivers.whole]
    omega
  rw [readPage_eq (afterBlocks_paging? store delivers.addressed index), ByteGeometry.readPage,
    offset, if_neg some, if_neg (Nat.not_le_of_lt fits)]
  rw [preadBlock] at full
  simp only [full, ByteGeometry.pageOf_window delivers.whole positive inside]
  exact ⟨trivial, rfl⟩

end Image

namespace PageWalk

variable {store : FileStore} {geometry : ByteGeometry} {image : Image} {content : ByteArray}

/-- A walk that stands before a block where it yields the item of the block and then stands before
the next one, and ends behind the last block, yields the items that are left, as far as it is
let. -/
theorem take_of_steps (stands : Nat → PageWalk → Prop) {items : Nat → Except ImageError Page}
    {count : Nat}
    (inside : ∀ index < count, ∀ walk, stands index walk → ∃ after warnings,
      next store walk = (some (items index), after, warnings) ∧ stands (index + 1) after)
    (past : ∀ index, count ≤ index → ∀ walk, stands index walk → (next store walk).1 = none)
    (limit : Nat) {index : Nat} {walk : PageWalk} (here : stands index walk) :
    (take store limit walk).1 =
      (List.range' index (min limit (count - index))).map items := by
  induction limit generalizing index walk with
  | zero => simp [take]
  | succ limit ih =>
    rw [take]
    by_cases low : index < count
    · obtain ⟨after, warnings, step, there⟩ := inside index low walk here
      have left : min (limit + 1) (count - index) = min limit (count - (index + 1)) + 1 := by omega
      rw [step, left, List.range'_succ, List.map_cons, ← ih there]
    · have ended := past index (Nat.le_of_not_lt low) walk here
      have left : min (limit + 1) (count - index) = 0 := by omega
      rw [left]
      cases step : next store walk with
      | mk item rest =>
        rw [step] at ended
        cases ended
        rfl

theorem next_of_take {items : Nat → Except ImageError Page} {count : Nat} {walk : PageWalk}
    (taken : (take store 1 walk).1 = (List.range (min 1 count)).map items) (more : 0 < count) :
    (next store walk).1 = some (items 0) := by
  rw [Nat.min_eq_left more, take] at taken
  cases step : next store walk with
  | mk item rest =>
    rw [step] at taken
    cases item with
    | none => cases taken
    | some item => exact congrArg some (List.cons.inj taken).1

def beforeBlock (store : FileStore) (geometry : ByteGeometry) (image : Image) (index : Nat) :
    PageWalk :=
  ⟨image.afterBlocks store geometry index, geometry.cursorAt index⟩

theorem start_eq (store : FileStore) (addressed : image.backend.paging? = some geometry) :
    start image = beforeBlock store geometry image 0 := by
  rw [start, Backend.first_eq addressed, ByteGeometry.first_eq_cursorAt]
  rfl

theorem next_inside (delivers : image.Delivers store geometry content)
    (held : min (geometry.pageSize + geometry.margin) content.size < bufferLimit)
    (positive : 0 < geometry.pageSize) {index : Nat}
    (inside : index * geometry.pageSize < content.size) :
    ∃ warnings, next store (beforeBlock store geometry image index) =
      (some (.ok (Page.ofBlock content geometry.pageSize geometry.margin index)),
        beforeBlock store geometry image (index + 1), warnings) := by
  obtain ⟨page, state⟩ := Image.readPage_block delivers held positive inside
  have going : (beforeBlock store geometry image index).cursor.atEnd = false := by
    simpa [beforeBlock, ByteGeometry.cursorAt, Cursor.atByte, delivers.whole] using inside
  have addressed := Image.afterBlocks_paging? store delivers.addressed (index + 1)
  rw [next, if_neg (by rw [going]; exact Bool.false_ne_true)]
  simp only [beforeBlock, page, state, Backend.advance_eq addressed, geometry.advance_cursorAt]
  exact ⟨_, rfl⟩

theorem next_past (delivers : image.Delivers store geometry content) {index : Nat}
    (past : content.size ≤ index * geometry.pageSize) :
    next store (beforeBlock store geometry image index) =
      (none, beforeBlock store geometry image index, []) := by
  have ended : (beforeBlock store geometry image index).cursor.atEnd = true := by
    simpa [beforeBlock, ByteGeometry.cursorAt, Cursor.atByte, delivers.whole] using past
  rw [next, if_pos ended]

theorem take_beforeBlock (delivers : image.Delivers store geometry content)
    (held : min (geometry.pageSize + geometry.margin) content.size < bufferLimit)
    (positive : 0 < geometry.pageSize) (limit index : Nat) :
    (take store limit (beforeBlock store geometry image index)).1 =
      (List.range' index
        (min limit (pieceCount content.size geometry.pageSize - index))).map fun index =>
          .ok (Page.ofBlock content geometry.pageSize geometry.margin index) := by
  have blocks := lt_pieceCount positive content.size
  refine take_of_steps (fun index walk => walk = beforeBlock store geometry image index)
    ?_ ?_ limit rfl
  · rintro index inside walk rfl
    obtain ⟨warnings, step⟩ := next_inside delivers held positive ((blocks index).mp inside)
    exact ⟨_, warnings, step, rfl⟩
  · rintro index past walk rfl
    have behind := (not_congr (blocks index)).mp (Nat.not_lt_of_le past)
    rw [next_past delivers (Nat.le_of_not_lt behind)]

theorem next_of_wide (store : FileStore) (addressed : image.backend.paging? = some geometry)
    (wide : bufferLimit ≤ geometry.windowAt 0) :
    (next store (start image)).1 = some (.error (.bufferTooLarge (geometry.windowAt 0))) := by
  have some : 0 < geometry.windowAt 0 := Nat.lt_of_lt_of_le (by decide) wide
  have inside : 0 * geometry.pageSize < geometry.size := by
    rw [Nat.zero_mul]
    rw [ByteGeometry.windowAt] at some
    omega
  have offset := geometry.offsetOf_cursorAt inside
  have going : (beforeBlock store geometry image 0).cursor.atEnd = false :=
    decide_eq_false (Nat.not_le_of_lt inside)
  have read : (image.readPage store (geometry.cursorAt 0)).result =
      .error (.bufferTooLarge (geometry.windowAt 0)) := by
    rw [Image.readPage_eq addressed, ByteGeometry.readPage, offset, Nat.zero_mul,
      if_neg (Nat.ne_of_gt some), if_pos wide]
  rw [start_eq store addressed, next, if_neg (by rw [going]; exact Bool.false_ne_true)]
  simp only [beforeBlock, Image.afterBlocks, read]

/-- A walk yields as many pages as there are blocks, in order, just when a buffer can hold the first
window. The page of a block is the slice of the content at its offset. These pages tile the
content: their active parts are end to end the content, and every run of bytes that is at most one
longer than the margin is inside the page whose active part holds its first byte, and no other
page's. -/
theorem pages_tile_content_iff (delivers : image.Delivers store geometry content)
    (positive : 0 < geometry.pageSize) :
    ((∀ limit, (take store limit (start image)).1 =
        (List.range (min limit (pieceCount content.size geometry.pageSize))).map fun index =>
          .ok (Page.ofBlock content geometry.pageSize geometry.margin index)) ↔
      min (geometry.pageSize + geometry.margin) content.size < bufferLimit) ∧
    joined ((List.range (pieceCount content.size geometry.pageSize)).map fun index =>
      (Page.ofBlock content geometry.pageSize geometry.margin index).active) = content ∧
    ∀ offset length, 0 < length → length ≤ geometry.margin + 1 → offset + length ≤ content.size →
      ∃ index, index < pieceCount content.size geometry.pageSize ∧
        (∀ other, other * geometry.pageSize ≤ offset ∧
          offset < other * geometry.pageSize +
            (Page.ofBlock content geometry.pageSize geometry.margin other).activeLength ↔
          other = index) ∧
        offset - index * geometry.pageSize + length ≤
          (Page.ofBlock content geometry.pageSize geometry.margin index).bytes.size ∧
        slice (Page.ofBlock content geometry.pageSize geometry.margin index).bytes
          (offset - index * geometry.pageSize) length = slice content offset length := by
  refine ⟨⟨?_, ?_⟩, Page.joined_active content geometry.margin positive, ?_⟩
  · intro pages
    refine Nat.lt_of_not_le fun wide => ?_
    have broken := next_of_wide store delivers.addressed
      (show bufferLimit ≤ geometry.windowAt 0 by rwa [ByteGeometry.windowAt, delivers.whole])
    have blocks : 0 < pieceCount content.size geometry.pageSize := by
      have limit : 0 < bufferLimit := by decide
      rw [lt_pieceCount positive]
      omega
    have first := broken.symm.trans (next_of_take (pages 1) blocks)
    cases Option.some.inj first
  · intro held limit
    rw [start_eq store delivers.addressed, take_beforeBlock delivers held positive,
      List.range_eq_range', Nat.sub_zero]
  · intro offset length some short inside
    obtain ⟨fits, same⟩ := Page.run_inside content geometry.margin positive short inside
    refine ⟨offset / geometry.pageSize, ?_, ?_, fits, same⟩
    · rw [lt_pieceCount positive]
      have := Nat.div_mul_le_self offset geometry.pageSize
      omega
    · exact Page.active_iff content geometry.margin positive (by omega)

end PageWalk

/-! ## Raw images deliver -/

theorem RawImage.Over.delivers {store : FileStore} {paths : List Path} {image : RawImage}
    (covered : Over store paths image) (files : ∀ path ∈ paths, store.HasFile path) :
    Image.Delivers store image.geometry ⟨.raw image, image.config⟩ (store.concatenation paths) where
  addressed := rfl
  whole := by
    obtain ⟨index, opened, indexed⟩ := covered
    rw [geometry, size, opened]
    exact indexed.size_eq
  full := by
    intro index inside
    have reached : ∀ count, ∃ next, Over store paths next ∧
        Image.afterBlocks store image.geometry ⟨.raw image, image.config⟩ count =
          ⟨.raw next, image.config⟩ := by
      intro count
      induction count with
      | zero => exact ⟨image, covered, rfl⟩
      | succ count ih =>
        obtain ⟨next, kept, state⟩ := ih
        obtain ⟨-, -, last⟩ := pread_eq kept files (count * image.geometry.pageSize)
          (image.geometry.windowAt (count * image.geometry.pageSize))
        refine ⟨_, last, ?_⟩
        rw [Image.afterBlocks, state]
        rfl
    obtain ⟨next, kept, state⟩ := reached index
    obtain ⟨result, -, -⟩ := pread_eq kept files (index * image.geometry.pageSize)
      (image.geometry.windowAt (index * image.geometry.pageSize))
    rw [state]
    exact result

namespace PageWalk

def smallPages : RawImage :=
  { path := ⟨"disk.000"⟩, config := { pageSize := 2, margin := 1, maxOpenFiles := 1 } }

theorem pages_tile_threeParts :
    ∃ opened, RawImage.openImage RawImage.threeParts smallPages = .ok opened ∧
      Image.Delivers RawImage.threeParts ⟨5, 2, 1⟩ ⟨.raw opened, smallPages.config⟩
        (ofBytes [1, 2, 3, 4, 5]) ∧
      (take RawImage.threeParts 9 (start ⟨.raw opened, smallPages.config⟩)).1 =
        (List.range 3).map fun index => .ok (Page.ofBlock (ofBytes [1, 2, 3, 4, 5]) 2 1 index) := by
  have closed : smallPages.index = none := rfl
  obtain ⟨index, success, covered⟩ :=
    RawImage.openImage_over closed rfl RawImage.threeParts_files RawImage.threeParts_counted
  have opened : RawImage.Over RawImage.threeParts
      (RawImage.parts RawImage.threeParts ⟨"disk.000"⟩) { smallPages with index := some index } :=
    ⟨index, rfl, covered⟩
  have content := RawImage.threeParts_concatenation
  have held : min (2 + 1) (ofBytes [1, 2, 3, 4, 5]).size < bufferLimit := by decide
  have delivers := opened.delivers RawImage.threeParts_files
  have whole : ({ smallPages with index := some index } : RawImage).geometry = ⟨5, 2, 1⟩ := by
    simp only [RawImage.geometry, RawImage.size, covered.size_eq]
    rw [show smallPages.path = ⟨"disk.000"⟩ from rfl, content]
    rfl
  rw [content, whole] at delivers
  obtain ⟨walk_iff, -, -⟩ := pages_tile_content_iff delivers (by decide)
  exact ⟨_, success, delivers, walk_iff.mpr held 9⟩

def wideMedia : SuppliedMedia where
  size := bufferLimit
  read _ offset length := .ok (slice (zeros bufferLimit) offset length)
  caseValue _ := none

def oneBlock : ContainerImage where
  path := ⟨"m.E01"⟩
  config := { pageSize := bufferLimit, margin := 0 }
  codec := ⟨"memory", fun _ path => .ok [path], fun _ _ => .ok (.supplied wideMedia)⟩

def oneBlockStore : FileStore where
  entries := [(["work"], .directory), (["m.E01", "work"], .regular 0)]
  contents := #[.empty]
  workingDirectory := ["work"]

def oneBlockImage : Image where
  backend := .container { oneBlock with opened := some ⟨.supplied wideMedia, [⟨"m.E01"⟩], []⟩ }
  config := oneBlock.config

theorem oneBlockImage_delivers :
    oneBlockImage.Delivers oneBlockStore ⟨bufferLimit, bufferLimit, 0⟩ (zeros bufferLimit) where
  addressed := rfl
  whole := (size_zeros _).symm
  full := by
    intro index inside
    rw [size_zeros] at inside
    obtain rfl : index = 0 := by
      dsimp only [bufferLimit] at inside
      omega
    have window : (⟨bufferLimit, bufferLimit, 0⟩ : ByteGeometry).windowAt 0 = bufferLimit := by
      decide
    have start : ¬bufferLimit ≤ 0 := by decide
    have read : (ContainerImage.pread oneBlockStore
        { oneBlock with opened := some ⟨.supplied wideMedia, [⟨"m.E01"⟩], []⟩ } 0
          bufferLimit).result = .ok (slice (zeros bufferLimit) 0 bufferLimit) := by
      simp only [ContainerImage.pread, OpenMedia.size, OpenMedia.readAt, wideMedia, if_neg start,
        slice_slice, Nat.sub_zero, Nat.add_zero, Nat.min_self]
    rw [Image.afterBlocks, Image.preadBlock, Nat.zero_mul, window]
    exact read

/-- The only page is as large as the media. They would be delivered, but no buffer can hold them. -/
theorem pages_do_not_tile_wideMedia :
    oneBlock.config.validate = .ok () ∧
      Image.openWith oneBlockStore oneBlock.path false oneBlock.config (some oneBlock.codec) =
        (.ok oneBlockImage, []) ∧
      oneBlockImage.Delivers oneBlockStore ⟨bufferLimit, bufferLimit, 0⟩ (zeros bufferLimit) ∧
      pieceCount (zeros bufferLimit).size bufferLimit = 1 ∧
      (next oneBlockStore (start oneBlockImage)).1 =
        some (.error (.bufferTooLarge bufferLimit)) := by
  refine ⟨rfl, by rfl, oneBlockImage_delivers, ?_, ?_⟩
  · rw [size_zeros]
    decide
  · exact next_of_wide oneBlockStore oneBlockImage_delivers.addressed (by decide)

end PageWalk

end EvidencePages

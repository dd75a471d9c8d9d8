import EvidencePages.Proofs.Image.Cursors
import EvidencePages.Proofs.Raw.SteadyRead

/-!
# Counting pages one after another and apart

The pages of an image can be counted along one walk, or block by block in any
order with the counts joined at the end. The walk ends at a page that is not
there, and the blocks behind it are left out of its count alone.
-/

set_option autoImplicit false

namespace EvidencePages

namespace Image

def afterPages (store : FileStore) (image : Image) : List Cursor → Image
  | [] => image
  | cursor :: rest => afterPages store (image.readPage store cursor).state rest

/-- Whatever pages were read before, the page at a cursor is the same. -/
def Steady (store : FileStore) (image : Image) (page : Cursor → Except ImageError (Option Page)) :
    Prop :=
  ∀ (history : List Cursor) (cursor : Cursor),
    ((image.afterPages store history).readPage store cursor).result = page cursor

variable {store : FileStore} {image : Image} {page : Cursor → Except ImageError (Option Page)}

theorem Steady.next (steady : image.Steady store page) (cursor : Cursor) :
    (image.readPage store cursor).state.Steady store page :=
  fun history => steady (cursor :: history)

/-- A steady image of so many blocks, with its cursors. -/
structure Fixed (store : FileStore) (image : Image)
    (page : Cursor → Except ImageError (Option Page)) (paging : Paging) (count : Nat) : Prop where
  steady : image.Steady store page
  paged : image.backend.paging = paging
  counted : paging.blockCount? = some count

namespace Fixed

variable {paging : Paging} {count : Nat} (fixed : image.Fixed store page paging count)

include fixed

theorem next (cursor : Cursor) :
    (image.readPage store cursor).state.Fixed store page paging count :=
  ⟨fixed.steady.next cursor, (image.readPage_paging store cursor).trans fixed.paged, fixed.counted⟩

theorem after (history : List Cursor) :
    (image.afterPages store history).Fixed store page paging count := by
  induction history generalizing image with
  | nil => exact fixed
  | cons cursor rest ih => exact ih (fixed.next cursor)

theorem readPage_result (cursor : Cursor) : (image.readPage store cursor).result = page cursor :=
  fixed.steady [] cursor

theorem first_eq : image.backend.first = paging.cursorAt 0 := by
  rw [image.backend.first_eq_cursorAt, fixed.paged]

theorem advance_eq (index : Nat) :
    image.backend.advance (paging.cursorAt index) = paging.cursorAt (index + 1) := by
  rw [← fixed.paged, image.backend.advance_cursorAt]

theorem blockCount_eq : image.backend.blockCount? = some count ∧ image.blockCount = count := by
  have known : image.backend.blockCount? = some count := by
    rw [image.backend.blockCount?_eq, fixed.paged, fixed.counted]
  rw [blockCount, known]
  exact ⟨rfl, rfl⟩

theorem seek_eq {block : Nat} (inside : block < count) :
    (image.seek block).1 = paging.cursorAt block := by
  rw [seek_inside fixed.blockCount_eq.1 inside, fixed.paged]

theorem readBlock_eq {block : Nat} (inside : block < count) :
    image.readBlock store block = image.readPage store (paging.cursorAt block) := by
  rw [readBlock_inside fixed.blockCount_eq.1 inside, fixed.paged]

end Fixed

end Image

namespace WalkTotals

/-- There is a page, or a failure that leaves a way to go on. -/
def isMarked : Except ImageError (Option Page) → Bool
  | .ok page => page.isSome
  | .error cause => !cause.isFatal

def shareOf (page : Except ImageError (Option Page)) : WalkTotals :=
  match ofPage page with
  | .ok share => share
  | .error _ => {}

theorem ofPage_of_marked {page : Except ImageError (Option Page)} (marked : isMarked page = true) :
    ofPage page = .ok (shareOf page) ∧ (shareOf page).pages + (shareOf page).readErrors = 1 ∧
      page ≠ .ok none := by
  rcases page with cause | page
  · have going : cause.isFatal = false := by simpa [isMarked] using marked
    simp [shareOf, ofPage, going]
  · cases page with
    | none => cases marked
    | some page => simp [shareOf, ofPage]

theorem marked_of_ofPage {page : Except ImageError (Option Page)} {share : WalkTotals}
    (given : ofPage page = .ok share) :
    share.pages + share.readErrors ≤ 1 ∧
      (share.pages + share.readErrors = 1 → isMarked page = true) := by
  rcases page with cause | page
  · dsimp only [ofPage] at given
    by_cases fatal : cause.isFatal = true
    · rw [if_pos fatal] at given
      cases given
    · rw [if_neg fatal] at given
      cases given
      simp [isMarked, fatal]
  · cases page with
    | none =>
      cases given
      simp
    | some page =>
      cases given
      simp [isMarked]

def summed (each : Nat → WalkTotals) (blocks : List Nat) : WalkTotals where
  pages := totalOf (blocks.map fun block => (each block).pages)
  bytes := totalOf (blocks.map fun block => (each block).bytes)
  readErrors := totalOf (blocks.map fun block => (each block).readErrors)

theorem summed_cons (each : Nat → WalkTotals) (block : Nat) (blocks : List Nat) :
    summed each (block :: blocks) = (each block).add (summed each blocks) := rfl

theorem summed_append (each : Nat → WalkTotals) (left right : List Nat) :
    summed each (left ++ right) = (summed each left).add (summed each right) := by
  simp [summed, add, totalOf_append]

theorem summed_perm (each : Nat → WalkTotals) {blocks others : List Nat}
    (same : blocks.Perm others) : summed each blocks = summed each others := by
  simp only [summed, totalOf_perm (same.map _)]

theorem marks_summed {each : Nat → WalkTotals} {blocks : List Nat}
    (one : ∀ block ∈ blocks, (each block).pages + (each block).readErrors = 1) :
    (summed each blocks).pages + (summed each blocks).readErrors = blocks.length := by
  induction blocks with
  | nil => rfl
  | cons block blocks ih =>
    have here := one block List.mem_cons_self
    have rest := ih fun other listed => one other (List.mem_cons_of_mem _ listed)
    rw [summed_cons, add, List.length_cons]
    dsimp only
    omega

/-! ## Shared out blocks -/

/-- How blocks are shared out and their counts joined. A block is read when the pages at some
cursors have been read before it. -/
inductive Schedule where
  | idle
  | block (earlier : List Cursor) (number : Nat)
  | join (left right : Schedule)

namespace Schedule

def blocks : Schedule → List Nat
  | .idle => []
  | .block _ number => [number]
  | .join left right => left.blocks ++ right.blocks

def totals (store : FileStore) (image : Image) : Schedule → Except ImageError WalkTotals
  | .idle => .ok {}
  | .block earlier number => ofPage ((image.afterPages store earlier).readBlock store number).result
  | .join left right =>
    match left.totals store image, right.totals store image with
    | .error cause, _ => .error cause
    | _, .error cause => .error cause
    | .ok left, .ok right => .ok (left.add right)

end Schedule

/-! ## Totals of a steady image -/

variable {store : FileStore} {image : Image} {page : Cursor → Except ImageError (Option Page)}
  {paging : Paging} {count : Nat}

def shareAt (paging : Paging) (page : Cursor → Except ImageError (Option Page)) (block : Nat) :
    WalkTotals :=
  shareOf (page (paging.cursorAt block))

/-- Each block has a page, or a failure to read it that leaves a way to go on. -/
def AllMarked (paging : Paging) (page : Cursor → Except ImageError (Option Page)) (count : Nat) :
    Prop :=
  ∀ block < count, isMarked (page (paging.cursorAt block)) = true

theorem blockwiseFrom_eq (fixed : image.Fixed store page paging count)
    (marked : AllMarked paging page count) {number block : Nat} (inside : block + number ≤ count) :
    blockwiseFrom store number block image =
      .ok (summed (shareAt paging page) (List.range' block number)) := by
  induction number generalizing block image with
  | zero => rfl
  | succ number ih =>
    obtain ⟨share, -, -⟩ := ofPage_of_marked (marked block (by omega))
    rw [blockwiseFrom, fixed.readBlock_eq (by omega), fixed.readPage_result, share]
    dsimp only
    rw [ih (fixed.next _) (by omega)]
    rfl

theorem sequentialFrom_eq (fixed : image.Fixed store page paging count)
    (marked : AllMarked paging page count) {limit index : Nat} (enough : count ≤ index + limit) :
    sequentialFrom store limit image (paging.cursorAt index) =
      .ok (summed (shareAt paging page) (List.range' index (count - index))) := by
  induction limit generalizing index image with
  | zero =>
    rw [Nat.sub_eq_zero_of_le (by omega)]
    rfl
  | succ limit ih =>
    have ended := Paging.atEnd_cursorAt fixed.counted index
    rw [sequentialFrom]
    by_cases last : count ≤ index
    · rw [if_pos (ended.mpr last), Nat.sub_eq_zero_of_le last]
      rfl
    rw [if_neg fun h => last (ended.mp h)]
    dsimp only
    obtain ⟨share, -, there⟩ := ofPage_of_marked (marked index (by omega))
    have left : count - index = count - (index + 1) + 1 := by omega
    rw [fixed.readPage_result, (fixed.next _).advance_eq, ih (fixed.next _) (by omega), left,
      List.range'_succ, summed_cons]
    cases result : page (paging.cursorAt index) with
    | error cause =>
      rw [result] at share
      simp [share, shareAt, result, Except.map]
    | ok found =>
      rw [result] at share there
      cases found with
      | none => exact absurd rfl there
      | some found => simp [share, shareAt, result, Except.map]

theorem Schedule.totals_eq (fixed : image.Fixed store page paging count)
    (marked : AllMarked paging page count) {schedule : Schedule}
    (inside : ∀ block ∈ schedule.blocks, block < count) :
    schedule.totals store image = .ok (summed (shareAt paging page) schedule.blocks) := by
  induction schedule with
  | idle => rfl
  | block earlier number =>
    have here : number < count := inside number List.mem_cons_self
    obtain ⟨share, -, -⟩ := ofPage_of_marked (marked number here)
    rw [totals, (fixed.after earlier).readBlock_eq here, (fixed.after earlier).readPage_result,
      share]
    simp [Schedule.blocks, summed, shareAt, totalOf]
  | join left right before behind =>
    rw [totals, before fun block listed => inside block (List.mem_append_left _ listed),
      behind fun block listed => inside block (List.mem_append_right _ listed)]
    exact congrArg _ (summed_append _ _ _).symm

theorem marked_of_blockwiseFrom (fixed : image.Fixed store page paging count)
    {number block : Nat} (inside : block + number ≤ count) {totals : WalkTotals}
    (counted : blockwiseFrom store number block image = .ok totals) :
    totals.pages + totals.readErrors ≤ number ∧
      (totals.pages + totals.readErrors = number → ∀ index, block ≤ index →
        index < block + number → isMarked (page (paging.cursorAt index)) = true) := by
  -- Each block counts once at most, so the sum is full only if each of them counts.
  induction number generalizing block image totals with
  | zero =>
    cases counted
    exact ⟨Nat.le_refl _, fun _ index low high => absurd low (by omega)⟩
  | succ number ih =>
    rw [blockwiseFrom, fixed.readBlock_eq (by omega), fixed.readPage_result] at counted
    cases here : ofPage (page (paging.cursorAt block)) with
    | error cause =>
      rw [here] at counted
      cases counted
    | ok share =>
      rw [here] at counted
      dsimp only at counted
      obtain ⟨most, marked⟩ := marked_of_ofPage here
      cases rest : blockwiseFrom store number (block + 1)
          (image.readPage store (paging.cursorAt block)).state with
      | error cause =>
        rw [rest] at counted
        cases counted
      | ok others =>
        rw [rest] at counted
        cases counted
        obtain ⟨more, behind⟩ := ih (fixed.next _) (by omega) rest
        dsimp only [add]
        refine ⟨by omega, ?_⟩
        intro all index low high
        by_cases first : index = block
        · rw [first]
          exact marked (by omega)
        · exact behind (by omega) index (by omega) (by omega)

/-- On an image whose pages do not depend on what was read before, the walk from page to page and
the blocks read apart, shared out and joined in any way, come to the same totals with a mark for
each block, if and only if each block has a page or a failure that leaves a way to go on. -/
theorem walks_agree_iff (steady : image.Steady store page)
    (counted : image.backend.blockCount? = some count) :
    (∃ totals : WalkTotals,
      (∀ limit, count ≤ limit →
        sequentialFrom store limit image image.backend.first = .ok totals) ∧
      blockwise store image = .ok totals ∧
      (∀ schedule : Schedule, schedule.blocks.Perm (List.range count) →
        schedule.totals store image = .ok totals) ∧
      totals.pages + totals.readErrors = count) ↔
      ∀ block < count, isMarked (page (image.seek block).1) = true := by
  have fixed : image.Fixed store page image.backend.paging count :=
    ⟨steady, rfl, image.backend.blockCount?_eq.symm.trans counted⟩
  have cursors : (∀ block < count, isMarked (page (image.seek block).1) = true) ↔
      AllMarked image.backend.paging page count := by
    constructor
    · intro marked block inside
      rw [← fixed.seek_eq inside]
      exact marked block inside
    · intro marked block inside
      rw [fixed.seek_eq inside]
      exact marked block inside
  rw [cursors, blockwise, fixed.blockCount_eq.2]
  constructor
  · rintro ⟨totals, -, apart, -, all⟩ block inside
    exact (marked_of_blockwiseFrom fixed (Nat.le_of_eq (Nat.zero_add count)) apart).2 all block
      (Nat.zero_le _) (by omega)
  · intro marked
    refine ⟨summed (shareAt image.backend.paging page) (List.range count), ?_, ?_, ?_, ?_⟩
    · intro limit enough
      rw [fixed.first_eq, sequentialFrom_eq fixed marked (by omega), Nat.sub_zero,
        List.range_eq_range']
    · rw [blockwiseFrom_eq fixed marked (by omega), List.range_eq_range']
    · intro schedule same
      rw [Schedule.totals_eq fixed marked fun block listed => by
        simpa using same.mem_iff.mp listed, summed_perm _ same]
    · have one : ∀ block ∈ List.range count, (shareAt image.backend.paging page block).pages +
          (shareAt image.backend.paging page block).readErrors = 1 :=
        fun block listed => (ofPage_of_marked (marked block (List.mem_range.mp listed))).2.1
      rw [marks_summed one, List.length_range]

end WalkTotals

/-! ## Raw images are steady -/

/-- A raw image is steady over files of any kind, also over files that changed since it was opened,
as long as its pool holds no handle that its paths do not lead to any more. -/
theorem RawImage.steady {store : FileStore} (image : RawImage) {index : SplitIndex}
    (opened : image.index = some index) (sound : index.pool.Sound store) (config : Config) :
    Image.Steady store ⟨.raw image, config⟩ (image.pageAfresh store index) := by
  have reached : ∀ (history : List Cursor) (handles : Recency.Entries Handle),
      (index.withHandles handles).pool.Sound store → ∃ later,
        Image.afterPages store ⟨.raw (image.withHandles index handles), config⟩ history =
          ⟨.raw (image.withHandles index later), config⟩ ∧
        (index.withHandles later).pool.Sound store := by
    intro history
    induction history with
    | nil => exact fun handles kept => ⟨handles, rfl, kept⟩
    | cons cursor rest ih =>
      intro handles kept
      obtain ⟨-, later, state, kept⟩ := image.readPage_withHandles kept cursor
      have next : (Image.readPage store ⟨.raw (image.withHandles index handles), config⟩
          cursor).state = ⟨.raw (image.withHandles index later), config⟩ := by
        rw [← state]
        rfl
      rw [Image.afterPages, next]
      exact ih later kept
  intro history cursor
  have start : image = image.withHandles index index.pool.handles := by
    cases image
    cases opened
    rfl
  obtain ⟨later, state, kept⟩ := reached history index.pool.handles sound
  rw [← start] at state
  rw [state]
  exact (image.readPage_withHandles kept cursor).1

namespace WalkTotals

def twoParts : FileStore where
  entries := [
    (["work"], .directory),
    (["disk.000", "work"], .regular 0),
    (["disk.001", "work"], .regular 1)]
  contents := #[ofBytes [1, 2, 3, 4], ofBytes [5, 6, 7, 8]]
  workingDirectory := ["work"]

def pairPages : RawImage :=
  { path := ⟨"disk.000"⟩, config := { pageSize := 2, margin := 0 } }

def pairIndex : SplitIndex where
  segments := [⟨⟨"disk.000"⟩, 0, 4⟩, ⟨⟨"disk.001"⟩, 4, 4⟩]
  pool := .ofPaths [⟨"disk.000"⟩, ⟨"disk.001"⟩] pairPages.config.maxOpenFiles

def pairImage : RawImage := { pairPages with index := some pairIndex }

theorem openImage_pairPages : RawImage.openImage twoParts pairPages = .ok pairImage := by rfl

theorem sound_pairIndex (store : FileStore) : pairIndex.pool.Sound store :=
  HandlePool.sound_ofPaths store _ _

def withoutSecond : FileStore :=
  { twoParts with entries := [(["work"], .directory), (["disk.000", "work"], .regular 0)] }

theorem walks_agree_without_second :
    RawImage.openImage twoParts pairPages = .ok pairImage ∧
      Image.Steady withoutSecond ⟨.raw pairImage, pairPages.config⟩
        (pairImage.pageAfresh withoutSecond pairIndex) ∧
      Backend.blockCount? (.raw pairImage) = some 4 ∧
      (∀ limit, 4 ≤ limit → sequentialFrom withoutSecond limit ⟨.raw pairImage, pairPages.config⟩
        (Backend.first (.raw pairImage)) = .ok ⟨2, 4, 2⟩) ∧
      blockwise withoutSecond ⟨.raw pairImage, pairPages.config⟩ = .ok ⟨2, 4, 2⟩ ∧
      (∀ schedule : Schedule, schedule.blocks.Perm (List.range 4) →
        schedule.totals withoutSecond ⟨.raw pairImage, pairPages.config⟩ = .ok ⟨2, 4, 2⟩) := by
  have steady := pairImage.steady rfl (sound_pairIndex withoutSecond) pairPages.config
  have counted : Backend.blockCount? (.raw pairImage) = some 4 := by rfl
  have marked : ∀ block < 4, isMarked (pairImage.pageAfresh withoutSecond pairIndex
      (Image.seek ⟨.raw pairImage, pairPages.config⟩ block).1) = true := by decide +kernel
  have apart : blockwise withoutSecond ⟨.raw pairImage, pairPages.config⟩ = .ok ⟨2, 4, 2⟩ := by
    decide +kernel
  obtain ⟨totals, along, same, shared, -⟩ := (walks_agree_iff steady counted).mpr marked
  obtain rfl : totals = ⟨2, 4, 2⟩ := Except.ok.inj (same.symm.trans apart)
  exact ⟨openImage_pairPages, steady, counted, along, same, shared⟩

def firstEmptied : FileStore := { twoParts with contents := #[.empty, ofBytes [5, 6, 7, 8]] }

/-- The walk finds no page at its start and ends, while the blocks apart give two pages. -/
theorem walks_differ_first_emptied :
    RawImage.openImage twoParts pairPages = .ok pairImage ∧
      Image.Steady firstEmptied ⟨.raw pairImage, pairPages.config⟩
        (pairImage.pageAfresh firstEmptied pairIndex) ∧
      Backend.blockCount? (.raw pairImage) = some 4 ∧
      sequential firstEmptied ⟨.raw pairImage, pairPages.config⟩ = .ok ⟨0, 0, 0⟩ ∧
      blockwise firstEmptied ⟨.raw pairImage, pairPages.config⟩ = .ok ⟨2, 4, 0⟩ := by
  refine ⟨openImage_pairPages, pairImage.steady rfl (sound_pairIndex firstEmptied) _, rfl, ?_, ?_⟩
  · decide +kernel
  · decide +kernel

end WalkTotals

end EvidencePages

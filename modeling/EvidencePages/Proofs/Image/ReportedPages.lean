import EvidencePages.Proofs.Ewf.ChunkLengths
import EvidencePages.Proofs.Image.Opening

/-!
# Pages and the configuration that is reported

An image pages by the configuration that its backend was made with, and reports
the one that it was opened or wrapped with. For an image that was opened by its
path these are the same. A backend that was made apart may have another one,
and then the count, the blocks and the windows are those of the backend.
-/

set_option autoImplicit false

namespace EvidencePages

/-! ## Reads give no more than is asked for -/

theorem SplitIndex.size_read_le {store : FileStore} {index : SplitIndex} {offset length : Nat}
    {bytes : ByteArray} (given : (read store index offset length).1 = .ok bytes) :
    bytes.size ≤ length := by
  fun_induction read store index offset length generalizing bytes with
  | case1 index offset =>
    cases given
    exact Nat.le_refl _
  | case2 index offset length some none =>
    cases given
    exact Nat.zero_le _
  | case3 => cases given
  | case4 => cases given
  | case5 =>
    cases given
    exact Nat.zero_le _
  | case6 => cases given
  | case7 index offset length some part segment found within handle pool fetched piece read more
      rest last tail =>
    rename_i ih
    cases given
    have first := FileStore.size_readAt_le read
    have later := ih (congrArg Prod.fst tail)
    rw [ByteArray.size_append]
    omega

theorem Ewf.Reader.size_readFrom_le {store : FileStore} {reader : Reader} {offset length : Nat}
    {bytes : ByteArray} (given : (readFrom store reader offset length).1 = .ok bytes) :
    bytes.size ≤ length := by
  fun_induction readFrom store reader offset length generalizing bytes with
  | case1 reader offset =>
    cases given
    exact Nat.le_refl _
  | case2 => cases given
  | case3 =>
    cases given
    exact Nat.zero_le _
  | case4 => cases given
  | case5 reader offset length some chunk next read piece more rest final tail =>
    rename_i ih
    cases given
    have first : piece.size ≤ length := size_slice_le _ _ _
    have later := ih (congrArg Prod.fst tail)
    rw [ByteArray.size_append]
    omega

theorem OpenMedia.size_readAt_le {store : FileStore} {media : OpenMedia} {offset length : Nat}
    {bytes : ByteArray} (given : (media.readAt store offset length).1 = .ok bytes) :
    bytes.size ≤ length := by
  cases media with
  | ewf reader =>
    have given : (reader.readAt store offset length).1 = .ok bytes := given
    rw [Ewf.Reader.readAt] at given
    split at given
    · cases given
    · exact Nat.le_trans (Ewf.Reader.size_readFrom_le given) (Nat.min_le_left _ _)
  | supplied source =>
    rw [readAt] at given
    split at given
    · cases given
    · cases given
      exact size_slice_le _ _ _

theorem RawImage.size_pread_le {store : FileStore} {image : RawImage} {offset length : Nat}
    {bytes : ByteArray} (given : (pread store image offset length).result = .ok bytes) :
    bytes.size ≤ length := by
  rw [pread] at given
  split at given
  · cases given
    exact Nat.zero_le _
  · rw [Outcome.reporting_result] at given
    exact SplitIndex.size_read_le given

theorem ContainerImage.size_pread_le {store : FileStore} {image : ContainerImage}
    {offset length : Nat} {bytes : ByteArray}
    (given : (pread store image offset length).result = .ok bytes) : bytes.size ≤ length := by
  rw [pread] at given
  split at given
  · cases given
    exact Nat.zero_le _
  · rename_i container opened
    dsimp only at given
    split at given
    · cases given
      exact Nat.zero_le _
    cases read : container.media.readAt store offset
        (min length (container.media.size - offset)) with
    | mk result media =>
      rw [read] at given
      cases result with
      | error cause =>
        rw [Outcome.reporting_result] at given
        cases given
      | ok found =>
        cases given
        have bound := OpenMedia.size_readAt_le (congrArg Prod.fst read)
        omega

/-! ## Pages hold their windows -/

theorem ByteGeometry.size_of_readPage {σ : Type} {geometry : ByteGeometry}
    {pread : σ → Nat → Nat → Outcome σ ByteArray} {state : σ} {cursor : Cursor} {page : Page}
    (bounded : ∀ offset length bytes, (pread state offset length).result = .ok bytes →
      bytes.size ≤ length)
    (given : (geometry.readPage pread state cursor).result = .ok (some page)) :
    page.bytes.size = geometry.windowAt (geometry.offsetOf cursor) := by
  rw [readPage] at given
  dsimp only at given
  split at given
  · cases given
  split at given
  · cases given
  cases read : (pread state (geometry.offsetOf cursor)
      (geometry.windowAt (geometry.offsetOf cursor))).result with
  | error cause =>
    rw [read] at given
    cases given
  | ok bytes =>
    rw [read] at given
    dsimp only [pageOf] at given
    split at given
    · cases given
    split at given
    · cases given
    · rename_i whole
      cases given
      exact Nat.le_antisymm (bounded _ _ _ read) (Nat.not_lt.mp whole)

theorem Backend.size_of_readPage {store : FileStore} {backend : Backend} {geometry : ByteGeometry}
    {cursor : Cursor} {page : Page} (paged : backend.paging? = some geometry)
    (given : (backend.readPage store cursor).result = .ok (some page)) :
    page.bytes.size = geometry.windowAt (geometry.offsetOf cursor) := by
  cases backend with
  | raw image =>
    cases paged
    exact ByteGeometry.size_of_readPage (fun _ _ _ read => RawImage.size_pread_le read) given
  | container image =>
    cases paged
    exact ByteGeometry.size_of_readPage (fun _ _ _ read => ContainerImage.size_pread_le read) given
  | directory image => cases paged

theorem Backend.paging?_eq {backend : Backend} {config : Config}
    (configured : backend.config? = some config) :
    backend.paging? = some ⟨backend.size, config.pageSize, config.margin⟩ ∧
      backend.paging = .bytes ⟨backend.size, config.pageSize, config.margin⟩ := by
  cases backend with
  | raw image =>
    cases configured
    exact ⟨rfl, rfl⟩
  | container image =>
    cases configured
    exact ⟨rfl, rfl⟩
  | directory image => cases configured

/-! ## The configuration that is reported -/

namespace Image

/-- The ways in which an image comes about: by its path, or over a raw or container backend that
may have been tried and used before. -/
inductive Made : Image → Prop
  | opened {store : FileStore} {path : Path} {recurse : Bool} {config : Config}
      {codec : Option Codec} {image : Image} {warnings : List Warning}
      (success : openWith store path recurse config codec = (.ok image, warnings)) : Made image
  | wrapped {store : FileStore} {backend : Backend} {uses : List Backend.Use} {config : Config}
      {image : Image} {warnings : List Warning} (fresh : backend.IsFresh)
      (success : ofBackend store (backend.after uses) config = (.ok image, warnings)) : Made image

variable {image : Image} {own : Config}

theorem Made.isOpened (made : image.Made) (configured : image.backend.config? = some own) :
    image.backend.IsOpened ∧ own.validate = .ok () ∧ image.config.validate = .ok () := by
  cases made with
  | opened success =>
    obtain ⟨backend, selecting, opening, selected, success⟩ := openWith_eq_ok success
    obtain ⟨opened, rfl, valid⟩ := ofBackend_eq_ok success
    rcases select_eq_ok selected with ⟨directory, rfl⟩ | ⟨fresh, -⟩
    · cases configured
    · obtain ⟨there, backendValid⟩ := fresh.valid_of_opened [] opened
      exact ⟨there, backendValid own configured, valid⟩
  | wrapped fresh success =>
    obtain ⟨opened, rfl, valid⟩ := ofBackend_eq_ok success
    obtain ⟨there, backendValid⟩ := fresh.valid_of_opened _ opened
    exact ⟨there, backendValid own configured, valid⟩

theorem config?_of_openWith {store : FileStore} {path : Path} {recurse : Bool} {config : Config}
    {codec : Option Codec} {warnings : List Warning}
    (success : openWith store path recurse config codec = (.ok image, warnings))
    (configured : image.backend.config? = some own) : own = image.config := by
  obtain ⟨backend, selecting, opening, selected, success⟩ := openWith_eq_ok success
  obtain ⟨opened, rfl, -⟩ := ofBackend_eq_ok success
  have kept : (backend.openBackend store).state.config? = backend.config? :=
    backend.used_config? (.opening store)
  rw [kept] at configured
  rcases select_eq_ok selected with ⟨directory, rfl⟩ | ⟨-, asked⟩
  · cases configured
  · exact Option.some.inj (configured.symm.trans asked)

theorem blocks_of_config (configured : image.backend.config? = some own)
    (positive : 0 < own.pageSize) :
    image.info.blockCount = pieceCount image.info.size own.pageSize ∧
      ∀ block < image.info.blockCount,
        image.seek block = (.atByte (block * own.pageSize) false, block) := by
  obtain ⟨-, paged⟩ := Backend.paging?_eq configured
  have counted : image.backend.blockCount? = some (pieceCount image.backend.size own.pageSize) := by
    rw [image.backend.blockCount?_eq, paged]
    exact if_neg (Nat.ne_of_gt positive)
  have count : image.info.blockCount = pieceCount image.backend.size own.pageSize := by
    rw [info, blockCount, counted, Option.getD_some]
  refine ⟨count, fun block low => ?_⟩
  rw [count] at low
  have inside := (lt_pieceCount positive _ block).mp low
  rw [seek, image.backend.seek?_eq counted, Option.getD_some, Nat.min_eq_left (by omega), paged,
    Paging.cursorAt, ByteGeometry.cursorAt, Nat.min_eq_left (Nat.le_of_lt inside),
    decide_eq_false (Nat.not_le_of_lt inside)]

/-- Count, blocks and windows are as the reported configuration has them. -/
structure PagesAsReported (image : Image) (own : Config) : Prop where
  count : image.info.blockCount = pieceCount image.info.size image.info.pageSize
  begins : ∀ block < image.info.blockCount,
    image.seek block = (.atByte (block * image.info.pageSize) false, block)
  fits : ∀ block < image.info.blockCount,
    min (own.pageSize + own.margin) (image.info.size - block * own.pageSize) ≤ image.config.window

end Image

/-- For an image of this size nothing shows that the configurations differ: it has one page at most
under both of them, or the page sizes are the same and the reported window has room for the first
page. -/
def Config.PagesLike (own reported : Config) (size : Nat) : Prop :=
  size ≤ own.pageSize ∧ size ≤ reported.pageSize ∨
    own.pageSize = reported.pageSize ∧ min (own.pageSize + own.margin) size ≤ reported.window

namespace Image

variable {image : Image} {own : Config}

theorem pagesAsReported_of_like (configured : image.backend.config? = some own)
    (positive : 0 < own.pageSize) (positive' : 0 < image.config.pageSize)
    (sized : image.info.size < Config.sizeLimit)
    (like : own.PagesLike image.config image.info.size) : image.PagesAsReported own := by
  obtain ⟨count, begins⟩ := blocks_of_config configured positive
  have reported : image.info.pageSize = image.config.pageSize := rfl
  rcases like with ⟨one, one'⟩ | ⟨same, room⟩
  · have first : ∀ block < image.info.blockCount, block = 0 := by
      intro block low
      rw [count, pieceCount_of_le positive one] at low
      omega
    refine ⟨?_, fun block low => ?_, fun block low => ?_⟩
    · rw [count, reported, pieceCount_of_le positive one, pieceCount_of_le positive' one']
    · rw [begins block low, first block low, Nat.zero_mul, Nat.zero_mul]
    · rw [first block low, Config.window]
      omega
  · refine ⟨?_, fun block low => ?_, fun block low => ?_⟩
    · rw [count, reported, same]
    · rw [begins block low, reported, same]
    · omega

theorem like_of_pagesAsReported (configured : image.backend.config? = some own)
    (positive : 0 < own.pageSize) (positive' : 0 < image.config.pageSize)
    (paged : image.PagesAsReported own) : own.PagesLike image.config image.info.size := by
  obtain ⟨count, begins⟩ := blocks_of_config configured positive
  have reported : image.info.pageSize = image.config.pageSize := rfl
  by_cases second : 1 < image.info.blockCount
  · have block := (begins 1 second).symm.trans (paged.begins 1 second)
    rw [Nat.one_mul, Nat.one_mul, reported] at block
    have room := paged.fits 0 (Nat.lt_of_succ_lt second)
    rw [Nat.zero_mul, Nat.sub_zero] at room
    have offset := congrArg (·.1.byteOffset?) block
    exact .inr ⟨Option.some.inj offset, room⟩
  · have short : ¬1 * own.pageSize < image.info.size := by
      rw [← lt_pieceCount positive, ← count]
      exact second
    have short' : ¬1 * image.config.pageSize < image.info.size := by
      rw [← lt_pieceCount positive', ← reported, ← paged.count]
      exact second
    exact .inl ⟨by omega, by omega⟩

theorem size_of_readBlock (configured : image.backend.config? = some own)
    (positive : 0 < own.pageSize) {store : FileStore} {block : Nat} {page : Page}
    (low : block < image.info.blockCount)
    (given : (image.readBlock store block).result = .ok (some page)) :
    page.bytes.size =
      min (own.pageSize + own.margin) (image.info.size - block * own.pageSize) := by
  obtain ⟨count, begins⟩ := blocks_of_config configured positive
  have inside : block * own.pageSize < image.info.size := by
    rw [count] at low
    exact (lt_pieceCount positive _ block).mp low
  have counted : ¬image.blockCount ≤ block := Nat.not_le_of_lt low
  rw [readBlock, if_neg counted, begins block low] at given
  have whole := Backend.size_of_readPage (Backend.paging?_eq configured).1 given
  rw [whole, ByteGeometry.offsetOf, Cursor.byteOffset?]
  exact congrArg (fun offset => min _ (image.info.size - offset))
    (Nat.min_eq_left (Nat.le_of_lt inside))

theorem size_of_readPage_le (configured : image.backend.config? = some own) {store : FileStore}
    {cursor : Cursor} {page : Page}
    (sized : image.info.size < Config.sizeLimit)
    (given : (image.readPage store cursor).result = .ok (some page)) :
    page.bytes.size ≤ own.window := by
  rw [Backend.size_of_readPage (Backend.paging?_eq configured).1 given, ByteGeometry.windowAt,
    Config.window]
  change image.backend.size < Config.sizeLimit at sized
  dsimp only
  omega

/-- Whenever an image has been made and whatever was done with it since, it counts and begins its
blocks by the page size of its backend, and the page of a block holds what the backend's page size
and margin call for. For every image that was opened by its path this is what it reports. For one
over a backend that was made apart it is so exactly if the configurations are alike for its size. -/
theorem pages_as_reported_iff (made : image.Made) (configured : image.backend.config? = some own)
    (sized : image.info.size < Config.sizeLimit) (uses : List Backend.Use) :
    let now := image.withBackend (image.backend.after uses)
    now.info.blockCount = pieceCount image.info.size own.pageSize ∧
    (∀ block < now.info.blockCount,
      now.seek block = (.atByte (block * own.pageSize) false, block) ∧
      ∀ store page, (now.readBlock store block).result = .ok (some page) →
        page.bytes.size =
          min (own.pageSize + own.margin) (image.info.size - block * own.pageSize)) ∧
    (∀ store cursor page, (now.readPage store cursor).result = .ok (some page) →
      page.bytes.size ≤ own.window) ∧
    (now.PagesAsReported own ↔ own.PagesLike image.config image.info.size) ∧
    ((∃ store path recurse config codec warnings,
      openWith store path recurse config codec = (.ok image, warnings)) →
      own = image.config ∧ now.PagesAsReported own) := by
  intro now
  obtain ⟨opened, valid, valid'⟩ := made.isOpened configured
  have positive := (Config.validate_eq_ok.mp valid).1
  have positive' := (Config.validate_eq_ok.mp valid').1
  have configuredNow : now.backend.config? = some own :=
    (image.backend.after_config? uses).trans configured
  have size : now.info.size = image.info.size := (opened.after uses).2.size
  have sizedNow : now.info.size < Config.sizeLimit := size ▸ sized
  obtain ⟨count, begins⟩ := blocks_of_config configuredNow positive
  have asReported : now.PagesAsReported own ↔ own.PagesLike image.config image.info.size := by
    rw [← size]
    exact ⟨like_of_pagesAsReported configuredNow positive positive',
      pagesAsReported_of_like configuredNow positive positive' sizedNow⟩
  refine ⟨?_, fun block low => ⟨begins block low, fun store page given => ?_⟩, ?_, asReported, ?_⟩
  · rw [count, size]
  · rw [size_of_readBlock configuredNow positive low given, size]
  · exact fun store cursor page => size_of_readPage_le configuredNow sizedNow
  · rintro ⟨store, path, recurse, config, codec, warnings, success⟩
    have same := config?_of_openWith success configured
    refine ⟨same, asReported.mpr (.inr ⟨congrArg Config.pageSize same, ?_⟩)⟩
    rw [same, Config.window]
    omega

def widePages : RawImage where
  path := ⟨"disk.000"⟩
  config := { pageSize := 4, margin := 1, maxOpenFiles := 1 }

def relabelled (config : Config) : Image :=
  ⟨.raw { widePages with index := some RawImage.threePartsIndex }, config⟩

/-- Another margin does not show where the first page has room, another page size does. -/
theorem pages_of_relabelled :
    (Backend.raw widePages).IsFresh ∧
      ofBackend RawImage.threeParts ((Backend.raw widePages).after [.opening .blank])
        { pageSize := 4, margin := 3 } = (.ok (relabelled { pageSize := 4, margin := 3 }), []) ∧
      (relabelled { pageSize := 4, margin := 3 }).info.size < Config.sizeLimit ∧
      (relabelled { pageSize := 4, margin := 3 }).PagesAsReported widePages.config ∧
      Made (relabelled { pageSize := 2, margin := 1 }) ∧
      ¬(relabelled { pageSize := 2, margin := 1 }).PagesAsReported widePages.config := by
  have fresh : (Backend.raw widePages).IsFresh := rfl
  have wrapped : ofBackend RawImage.threeParts ((Backend.raw widePages).after [.opening .blank])
      { pageSize := 4, margin := 3 } = (.ok (relabelled { pageSize := 4, margin := 3 }), []) := rfl
  have narrow : ofBackend RawImage.threeParts ((Backend.raw widePages).after [])
      { pageSize := 2, margin := 1 } = (.ok (relabelled { pageSize := 2, margin := 1 }), []) := rfl
  have sized : ∀ config, (relabelled config).info.size < Config.sizeLimit := by
    intro config
    change 5 < Config.sizeLimit
    decide
  obtain ⟨-, -, -, like, -⟩ :=
    pages_as_reported_iff (.wrapped fresh wrapped) rfl (sized _) []
  obtain ⟨-, -, -, unlike, -⟩ :=
    pages_as_reported_iff (.wrapped fresh narrow) rfl (sized _) []
  refine ⟨fresh, wrapped, sized _, like.mpr ?_, .wrapped fresh narrow, fun paged => ?_⟩
  · exact .inr ⟨rfl, by decide⟩
  · rcases unlike.mp paged with ⟨one, -⟩ | ⟨same, -⟩
    · exact absurd (show 5 ≤ 4 from one) (by decide)
    · exact absurd (show 4 = 2 from same) (by decide)

/-- An image over pages of four that was wrapped with pages of two and a margin of one: it has two
blocks and not three, the second begins at four and not at two, and the first page holds five bytes
where the reported window is three. -/
theorem relabelled_not_as_reported :
    widePages.index = none ∧ widePages.config.validate = .ok () ∧
      ofBackend RawImage.threeParts (.raw widePages) { pageSize := 2, margin := 1 } =
        (.ok (relabelled { pageSize := 2, margin := 1 }), []) ∧
      (relabelled { pageSize := 2, margin := 1 }).config = { pageSize := 2, margin := 1 } ∧
      (relabelled { pageSize := 2, margin := 1 }).info.pageSize = 2 ∧
      (relabelled { pageSize := 2, margin := 1 }).info.size = 5 ∧ pieceCount 5 2 = 3 ∧
      (relabelled { pageSize := 2, margin := 1 }).info.blockCount = 2 ∧
      (relabelled { pageSize := 2, margin := 1 }).seek 1 = (.atByte 4 false, 1) ∧
      (relabelled { pageSize := 2, margin := 1 }).config.window = 3 ∧
      ((relabelled { pageSize := 2, margin := 1 }).readBlock RawImage.threeParts 0).result.map
        (·.map (·.bytes.size)) = .ok (some 5) := by
  refine ⟨rfl, rfl, rfl, rfl, rfl, rfl, rfl, rfl, rfl, by decide, ?_⟩
  decide +kernel

end Image

end EvidencePages

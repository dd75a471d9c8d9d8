import EvidencePages.Proofs.Image.RandomAccess
import EvidencePages.Proofs.Raw.Pread

/-!
# Opening backends

A backend is made closed and may be opened again and again, over files that
change in between, and be read before, between and after. It stays as it was
made until an opening succeeds, and from then on it is what that opening made
of it: the only things that change are handles and chunks that it remembers.
-/

set_option autoImplicit false

namespace EvidencePages

theorem ContainerImage.pread_state {image : ContainerImage} {container : OpenContainer}
    (there : image.opened = some container) (store : FileStore) (offset length : Nat) :
    ∃ media : OpenMedia, media.size = container.media.size ∧
      (pread store image offset length).state =
        { image with opened := some { container with media } } := by
  rw [pread, there]
  dsimp only
  split
  · exact ⟨container.media, rfl, by rw [← there]⟩
  · have kept := container.media.readAt_size store offset
      (min length (container.media.size - offset))
    cases read : container.media.readAt store offset
        (min length (container.media.size - offset)) with
    | mk result media =>
      rw [read] at kept
      cases result with
      | error cause => exact ⟨media, kept, Outcome.reporting_state _ _⟩
      | ok bytes => exact ⟨media, kept, rfl⟩

namespace Backend

/-- The configuration that a backend pages by; a directory has none. -/
def config? : Backend → Option Config
  | .raw image => some image.config
  | .container image => some image.config
  | .directory _ => none

def parts : Backend → List Path
  | .container image => image.parts
  | _ => []

def IsFresh : Backend → Prop
  | .raw image => image.index = none
  | .container image => image.opened = none
  | .directory _ => False

def IsOpened : Backend → Prop
  | .raw image => image.index ≠ none
  | .container image => image.opened ≠ none
  | .directory _ => False

def Valid (backend : Backend) : Prop :=
  ∀ config, backend.config? = some config → config.validate = .ok ()

structure IsEmpty (backend : Backend) : Prop where
  size : backend.size = 0
  first : backend.first.atEnd = true
  segments : backend.segments = []
  parts : backend.parts = []
  details : backend.details = []
  pread : ∀ store offset length, backend.pread store offset length =
    { result := .ok .empty, state := backend }

/-- The backends differ at most in what they remember of their reads. -/
structure Alike (a b : Backend) : Prop where
  kind : a.kind = b.kind
  path : a.path = b.path
  config? : a.config? = b.config?
  size : a.size = b.size
  segments : a.segments = b.segments
  parts : a.parts = b.parts
  details : a.details = b.details

theorem Alike.refl (backend : Backend) : backend.Alike backend :=
  ⟨rfl, rfl, rfl, rfl, rfl, rfl, rfl⟩

theorem Alike.trans {a b c : Backend} (left : a.Alike b) (right : b.Alike c) : a.Alike c where
  kind := left.kind.trans right.kind
  path := left.path.trans right.path
  config? := left.config?.trans right.config?
  size := left.size.trans right.size
  segments := left.segments.trans right.segments
  parts := left.parts.trans right.parts
  details := left.details.trans right.details

theorem Alike.valid {a b : Backend} (alike : a.Alike b) (valid : b.Valid) : a.Valid :=
  fun config there => valid config (alike.config?.symm.trans there)

/-! ## Fresh backends -/

variable {backend : Backend}

theorem IsFresh.isEmpty (fresh : backend.IsFresh) : backend.IsEmpty := by
  cases backend with
  | raw image =>
    have closed : image.index = none := fresh
    refine ⟨?_, ?_, ?_, rfl, rfl, fun store offset length => ?_⟩
    · rw [size, RawImage.size, closed]
    · rw [first, RawImage.geometry, RawImage.size, closed]
      rfl
    · rw [segments, RawImage.segments, closed]
    · rw [Backend.pread, RawImage.pread, closed]
      rfl
  | container image =>
    have closed : image.opened = none := fresh
    refine ⟨?_, ?_, rfl, ?_, ?_, fun store offset length => ?_⟩
    · rw [size, ContainerImage.size, closed]
    · rw [first, ContainerImage.geometry, ContainerImage.size, closed]
      rfl
    · rw [parts, ContainerImage.parts, closed]
    · rw [details, ContainerImage.caseDetails, closed]
    · rw [Backend.pread, ContainerImage.pread, closed]
      rfl
  | directory image => cases fresh

/-- Opening a fresh backend fails and leaves it as it is, or succeeds under a valid
configuration. -/
theorem IsFresh.openBackend (fresh : backend.IsFresh) (store : FileStore) :
    (∃ cause, (backend.openBackend store).result = .error cause ∧
      (backend.openBackend store).state = backend) ∨
    ((backend.openBackend store).result = .ok () ∧ (backend.openBackend store).state.IsOpened ∧
      backend.Valid ∧ (backend.openBackend store).state.config? = backend.config?) := by
  cases backend with
  | raw image =>
    have closed : image.index = none := fresh
    rw [Backend.openBackend, RawImage.openImage, closed]
    dsimp only
    cases checked : image.config.validate with
    | error cause => exact .inl ⟨_, rfl, rfl⟩
    | ok =>
      dsimp only
      cases RawImage.partLengths store 0 (RawImage.parts store image.path) with
      | error cause => exact .inl ⟨_, rfl, rfl⟩
      | ok lengths =>
        refine .inr ⟨rfl, Option.some_ne_none _, ?_, rfl⟩
        rintro config ⟨⟩
        exact checked
  | container image =>
    have closed : image.opened = none := fresh
    rw [Backend.openBackend, ContainerImage.openImage, closed]
    dsimp only
    cases checked : image.config.validate with
    | error cause => exact .inl ⟨_, rfl, rfl⟩
    | ok =>
      dsimp only
      cases image.codec.enumerate store image.path with
      | mk listed warnings =>
        cases listed with
        | error cause => exact .inl ⟨_, rfl, rfl⟩
        | ok parts =>
          dsimp only
          cases image.codec.openParts store parts with
          | error cause => exact .inl ⟨_, rfl, rfl⟩
          | ok media =>
            dsimp only
            by_cases beyond : UInt64.size ≤ media.size
            · rw [if_pos beyond]
              exact .inl ⟨_, rfl, rfl⟩
            · rw [if_neg beyond]
              refine .inr ⟨rfl, Option.some_ne_none _, ?_, rfl⟩
              rintro config ⟨⟩
              exact checked
  | directory image => cases fresh

/-! ## Opened backends -/

theorem IsOpened.openBackend (opened : backend.IsOpened) (store : FileStore) :
    backend.openBackend store = { result := .ok (), state := backend } := by
  cases backend with
  | raw image =>
    obtain ⟨index, there⟩ := Option.ne_none_iff_exists'.mp opened
    rw [Backend.openBackend, RawImage.openImage, there]
  | container image =>
    obtain ⟨container, there⟩ := Option.ne_none_iff_exists'.mp opened
    rw [Backend.openBackend, ContainerImage.openImage, there]
    rfl
  | directory image => cases opened

theorem IsOpened.pread (opened : backend.IsOpened) (store : FileStore) (offset length : Nat) :
    (backend.pread store offset length).state.IsOpened ∧
      (backend.pread store offset length).state.Alike backend := by
  cases backend with
  | raw image =>
    obtain ⟨index, there⟩ := Option.ne_none_iff_exists'.mp opened
    have kept := index.read_segments store offset length
    have same : (RawImage.pread store image offset length).state =
        { image with index := some (index.read store offset length).2 } := by
      rw [RawImage.pread, there]
      exact Outcome.reporting_state _ _
    change (Backend.raw (RawImage.pread store image offset length).state).IsOpened ∧
      (Backend.raw (RawImage.pread store image offset length).state).Alike (.raw image)
    rw [same]
    refine ⟨Option.some_ne_none _, rfl, rfl, rfl, ?_, ?_, rfl, rfl⟩
    · simp only [size, RawImage.size, SplitIndex.size, there, kept]
    · simp only [segments, RawImage.segments, there, kept]
  | container image =>
    obtain ⟨container, there⟩ := Option.ne_none_iff_exists'.mp opened
    obtain ⟨media, kept, same⟩ := image.pread_state there store offset length
    change (Backend.container (ContainerImage.pread store image offset length).state).IsOpened ∧
      (Backend.container (ContainerImage.pread store image offset length).state).Alike
        (.container image)
    rw [same]
    refine ⟨Option.some_ne_none _, rfl, rfl, rfl, ?_, rfl, ?_, ?_⟩
    · simp only [size, ContainerImage.size, there, kept]
    · simp only [parts, ContainerImage.parts, there]
    · simp only [details, ContainerImage.caseDetails, there]
  | directory image => cases opened

theorem readPage_state (store : FileStore) (backend : Backend) (cursor : Cursor) :
    (backend.readPage store cursor).state = backend ∨
      ∃ offset length, (backend.readPage store cursor).state =
        (backend.pread store offset length).state := by
  cases backend with
  | raw image =>
    rcases image.geometry.readPage_state (RawImage.pread store) image cursor with
      same | ⟨offset, length, same⟩
    · exact .inl (congrArg Backend.raw same)
    · exact .inr ⟨offset, length, congrArg Backend.raw same⟩
  | container image =>
    rcases image.geometry.readPage_state (ContainerImage.pread store) image cursor with
      same | ⟨offset, length, same⟩
    · exact .inl (congrArg Backend.container same)
    · exact .inr ⟨offset, length, congrArg Backend.container same⟩
  | directory image => exact .inl rfl

/-! ## Runs -/

/-- What is done with a backend that can leave something in it, and the files at that time. -/
inductive Use where
  | opening (store : FileStore)
  | pread (store : FileStore) (offset length : Nat)
  | page (store : FileStore) (cursor : Cursor)

def used (backend : Backend) : Use → Backend
  | .opening store => (backend.openBackend store).state
  | .pread store offset length => (backend.pread store offset length).state
  | .page store cursor => (backend.readPage store cursor).state

def after (backend : Backend) : List Use → Backend
  | [] => backend
  | use :: rest => after (backend.used use) rest

theorem IsOpened.used (opened : backend.IsOpened) (use : Use) :
    (backend.used use).IsOpened ∧ (backend.used use).Alike backend := by
  cases use with
  | opening store =>
    rw [Backend.used, opened.openBackend store]
    exact ⟨opened, Alike.refl backend⟩
  | pread store offset length => exact opened.pread store offset length
  | page store cursor =>
    rw [Backend.used]
    rcases backend.readPage_state store cursor with same | ⟨offset, length, same⟩
    · rw [same]
      exact ⟨opened, Alike.refl backend⟩
    · rw [same]
      exact opened.pread store offset length

theorem IsOpened.after (opened : backend.IsOpened) (uses : List Use) :
    (backend.after uses).IsOpened ∧ (backend.after uses).Alike backend := by
  induction uses generalizing backend with
  | nil => exact ⟨opened, Alike.refl backend⟩
  | cons use rest ih =>
    obtain ⟨open', alike⟩ := opened.used use
    obtain ⟨stays, later⟩ := ih open'
    exact ⟨stays, later.trans alike⟩

theorem IsFresh.used (fresh : backend.IsFresh) (use : Use) :
    backend.used use = backend ∨
      (backend.used use).IsOpened ∧ (backend.used use).Valid ∧
        (backend.used use).config? = backend.config? := by
  have read : ∀ store offset length, (backend.pread store offset length).state = backend :=
    fun store offset length => by rw [fresh.isEmpty.pread]
  cases use with
  | opening store =>
    rcases fresh.openBackend store with ⟨cause, -, same⟩ | ⟨-, opened, valid, kept⟩
    · exact .inl same
    · exact .inr ⟨opened, fun config there => valid config (kept.symm.trans there), kept⟩
  | pread store offset length => exact .inl (read store offset length)
  | page store cursor =>
    rw [Backend.used]
    rcases backend.readPage_state store cursor with same | ⟨offset, length, same⟩
    · exact .inl same
    · exact .inl (same.trans (read store offset length))

/-- After any uses a backend is as it was made, or open under its valid configuration. -/
theorem IsFresh.after (fresh : backend.IsFresh) (uses : List Use) :
    backend.after uses = backend ∨
      (backend.after uses).IsOpened ∧ (backend.after uses).Valid ∧
        (backend.after uses).config? = backend.config? := by
  induction uses with
  | nil => exact .inl rfl
  | cons use rest ih =>
    rw [Backend.after]
    rcases fresh.used use with same | ⟨opened, valid, kept⟩
    · rw [same]
      exact ih
    · obtain ⟨stays, alike⟩ := opened.after rest
      exact .inr ⟨stays, alike.valid valid, alike.config?.trans kept⟩

theorem fresh_or_opened (backend : Backend) :
    backend.IsFresh ∨ backend.IsOpened ∨ ∃ image, backend = .directory image := by
  cases backend with
  | raw image =>
    cases there : image.index with
    | none => exact .inl there
    | some index => exact .inr (.inl (by rw [IsOpened, there]; exact Option.some_ne_none _))
  | container image =>
    cases there : image.opened with
    | none => exact .inl there
    | some container => exact .inr (.inl (by rw [IsOpened, there]; exact Option.some_ne_none _))
  | directory image => exact .inr (.inr ⟨image, rfl⟩)

theorem used_config? (backend : Backend) (use : Use) :
    (backend.used use).config? = backend.config? := by
  rcases backend.fresh_or_opened with fresh | opened | ⟨image, rfl⟩
  · rcases fresh.used use with same | ⟨-, -, kept⟩
    · rw [same]
    · exact kept
  · exact (opened.used use).2.config?
  · cases use <;> rfl

theorem after_config? (backend : Backend) (uses : List Use) :
    (backend.after uses).config? = backend.config? := by
  induction uses generalizing backend with
  | nil => rfl
  | cons use rest ih => exact (ih (backend.used use)).trans (backend.used_config? use)

theorem Valid.after (valid : backend.Valid) (uses : List Use) : (backend.after uses).Valid :=
  fun config there => valid config ((backend.after_config? uses).symm.trans there)

/-! ## Images -/

/-- Counting and seeking blocks never meets a page size of zero. -/
def Counted (backend : Backend) : Prop :=
  (∃ count, backend.blockCount? = some count) ∧
    ∀ block, ∃ sought, backend.seek? block = some sought

theorem Valid.counted (valid : backend.Valid) : backend.Counted := by
  have positive : ∀ geometry, backend.paging = .bytes geometry → 0 < geometry.pageSize := by
    intro geometry paged
    cases backend with
    | raw image =>
      cases paged
      exact (Config.validate_eq_ok.mp (valid image.config rfl)).1
    | container image =>
      cases paged
      exact (Config.validate_eq_ok.mp (valid image.config rfl)).1
    | directory image => cases paged
  obtain ⟨count, counted⟩ := Paging.exists_blockCount? positive
  rw [← backend.blockCount?_eq] at counted
  exact ⟨⟨count, counted⟩, fun block => ⟨_, backend.seek?_eq counted block⟩⟩

end Backend

namespace Image

variable {store : FileStore} {image : Image} {config : Config} {warnings : List Warning}

theorem ofBackend_eq_ok {backend : Backend}
    (success : ofBackend store backend config = (.ok image, warnings)) :
    (backend.openBackend store).result = .ok () ∧
      image = ⟨(backend.openBackend store).state, config⟩ ∧ config.validate = .ok () := by
  rw [ofBackend, openOver] at success
  cases checked : config.validate with
  | error cause =>
    rw [checked] at success
    cases success
  | ok =>
    rw [checked] at success
    cases opened : (backend.openBackend store).result with
    | error cause =>
      simp only [opened] at success
      cases success
    | ok =>
      simp only [opened] at success
      cases success
      exact ⟨rfl, rfl, rfl⟩

theorem select_eq_ok {path : Path} {recurse : Bool} {codec : Option Codec} {backend : Backend}
    (success : select store path recurse config codec = (.ok backend, warnings)) :
    (∃ image, backend = .directory image) ∨
      backend.IsFresh ∧ backend.config? = some config := by
  unfold select at success
  split at success
  · cases success
  · split at success
    · left
      rw [selectDirectory] at success
      split at success
      · cases success
      split at success
      · cases success
      · cases success
        exact ⟨_, rfl⟩
    · cases success
  · right
    split at success
    · split at success
      · cases success
      · cases success
        exact ⟨rfl, rfl⟩
    · cases success
      exact ⟨rfl, rfl⟩

theorem openWith_eq_ok {path : Path} {recurse : Bool} {codec : Option Codec}
    (success : openWith store path recurse config codec = (.ok image, warnings)) :
    ∃ backend selecting opening,
      select store path recurse config codec = (.ok backend, selecting) ∧
      ofBackend store backend config = (.ok image, opening) := by
  rw [openWith] at success
  split at success
  · cases success
  split at success
  · cases success
  · rename_i backend selecting selected
    cases made : ofBackend store backend config with
    | mk result opening =>
      rw [made] at success
      cases success
      exact ⟨backend, selecting, opening, selected, made⟩

end Image

namespace Backend

variable {backend : Backend}

theorem IsFresh.valid_of_opened (fresh : backend.IsFresh) (uses : List Use) {store : FileStore}
    (success : ((backend.after uses).openBackend store).result = .ok ()) :
    ((backend.after uses).openBackend store).state.IsOpened ∧
      ((backend.after uses).openBackend store).state.Valid := by
  rcases fresh.after uses with same | ⟨opened, valid, -⟩
  · rw [same] at success ⊢
    rcases fresh.openBackend store with ⟨cause, failed, -⟩ | ⟨-, opened, valid, kept⟩
    · rw [failed] at success
      cases success
    · exact ⟨opened, fun config there => valid config (kept.symm.trans there)⟩
  · rw [opened.openBackend store]
    exact ⟨opened, valid⟩

end Backend

end EvidencePages

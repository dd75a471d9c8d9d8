import EvidencePages.Proofs.Image.RandomAccess
import EvidencePages.Proofs.Image.ReportedErrors
import EvidencePages.Proofs.Runs

/-!
# Walks end and stay ended

Whatever each read of a walk comes to, the walk yields the items of the blocks in
order, at most one for each, up to the first block of which there is no page. From
then on its cursor is behind the last block and it yields nothing more. Only a
page that is too large for any buffer breaks it off.
-/

set_option autoImplicit false

namespace EvidencePages

theorem Backend.paging?_of_paging {backend : Backend} {geometry : ByteGeometry}
    (paged : backend.paging = .bytes geometry) : backend.paging? = some geometry := by
  cases backend <;> cases paged <;> rfl

theorem Image.paging_counted {image : Image}
    (positive : ∀ geometry, image.backend.paging = .bytes geometry → 0 < geometry.pageSize) :
    image.backend.paging.blockCount? = some image.blockCount := by
  rw [← image.backend.blockCount?_eq, blockCount?_eq_some positive]

namespace PageWalk

variable {stores : Nat → FileStore} {walk : PageWalk} {paging : Paging} {count index : Nat}

def afterCalls (stores : Nat → FileStore) (walk : PageWalk) : Nat → PageWalk
  | 0 => walk
  | calls + 1 => (next (stores calls) (afterCalls stores walk calls)).2.1

def answer (stores : Nat → FileStore) (walk : PageWalk) (call : Nat) :
    Option (Except ImageError Page) :=
  (next (stores call) (walk.afterCalls stores call)).1

/-- The page of the block that has the number of a call, read instead of that call. -/
def blockAt (stores : Nat → FileStore) (walk : PageWalk) (call : Nat) :
    Except ImageError (Option Page) :=
  ((walk.afterCalls stores call).image.readBlock (stores call) call).result

/-! ## One call -/

/-- The walk is before the block of that index, or at the end if there is none. -/
structure Stands (paging : Paging) (index : Nat) (walk : PageWalk) : Prop where
  paged : walk.image.backend.paging = paging
  cursor : walk.cursor = paging.cursorAt index

theorem stands_start (image : Image) : (start image).Stands image.backend.paging 0 :=
  ⟨rfl, image.backend.first_eq_cursorAt⟩

namespace Stands

variable (stands : walk.Stands paging index) (counted : paging.blockCount? = some count)
  (store : FileStore)

include stands

theorem blockCount?_eq : walk.image.backend.blockCount? = paging.blockCount? := by
  rw [walk.image.backend.blockCount?_eq, stands.paged]

theorem readPage_paged :
    (walk.image.readPage store walk.cursor).state.backend.paging = paging :=
  (walk.image.readPage_paging store walk.cursor).trans stands.paged

include counted

theorem blockCount_eq : walk.image.blockCount = count := by
  rw [Image.blockCount, stands.blockCount?_eq, counted, Option.getD_some]

theorem readBlock_eq (inside : index < count) :
    walk.image.readBlock store index = walk.image.readPage store walk.cursor := by
  rw [Image.readBlock_inside (stands.blockCount?_eq.trans counted) inside, stands.paged,
    stands.cursor]

theorem going (inside : index < count) : ¬walk.cursor.atEnd = true := by
  rw [stands.cursor, Paging.atEnd_cursorAt counted]
  exact Nat.not_le_of_lt inside

theorem next_past (past : count ≤ index) : next store walk = (none, walk, []) := by
  have ended := (Paging.atEnd_cursorAt counted index).mpr past
  rw [next, stands.cursor, if_pos ended]

theorem next_item (inside : index < count) {item : Except ImageError Page}
    (read : (walk.image.readBlock store index).result = item.map some) :
    (next store walk).1 = some item ∧ (next store walk).2.1.Stands paging (index + 1) := by
  have paged := stands.readPage_paged store
  have cursor := (walk.image.readPage store walk.cursor).state.backend.advance_cursorAt index
  rw [paged, ← stands.cursor] at cursor
  rw [stands.readBlock_eq counted store inside] at read
  rw [next, if_neg (stands.going counted inside)]
  dsimp only
  cases item with
  | ok page =>
    rw [read]
    exact ⟨rfl, paged, cursor⟩
  | error cause =>
    rw [read]
    exact ⟨rfl, paged, cursor⟩

theorem next_none (inside : index < count)
    (read : (walk.image.readBlock store index).result = .ok none) :
    (next store walk).1 = none ∧ (next store walk).2.1.Stands paging count := by
  have paged := stands.readPage_paged store
  rw [stands.readBlock_eq counted store inside] at read
  rw [next, if_neg (stands.going counted inside)]
  dsimp only
  rw [read]
  refine ⟨rfl, paged, ?_⟩
  rw [Backend.last_eq_paging, paged, Paging.cursorAt_of_le counted (Nat.le_refl count)]

end Stands

/-! ## All calls -/

theorem exists_item {page : Except ImageError (Option Page)} (there : page ≠ .ok none) :
    ∃ item : Except ImageError Page, page = item.map some := by
  rcases page with cause | page
  · exact ⟨.error cause, rfl⟩
  · cases page with
    | none => exact absurd rfl there
    | some page => exact ⟨.ok page, rfl⟩

/-- The walk yields the pages or errors of the blocks before the first one that has none, and from
then on is at the end and yields nothing. -/
structure Stops (stores : Nat → FileStore) (image : Image) (stop : Nat) : Prop where
  run : Run (fun block => (start image).blockAt stores block ≠ .ok none) 0 image.blockCount stop
  items : ∀ call < stop, ∃ item, (start image).answer stores call = some item ∧
    (start image).blockAt stores call = item.map some
  ended : ∀ call, stop ≤ call → (start image).answer stores call = none ∧
    ((start image).afterCalls stores (call + 1)).cursor = image.backend.last

theorem stands_afterCalls (counted : paging.blockCount? = some count)
    (begins : walk.Stands paging 0) {stop : Nat}
    (run : Run (fun block => walk.blockAt stores block ≠ .ok none) 0 count stop) {call : Nat}
    (before : call ≤ stop) : (walk.afterCalls stores call).Stands paging call := by
  induction call with
  | zero => exact begins
  | succ call ih =>
    obtain ⟨item, read⟩ := exists_item (run.each call (Nat.zero_le _) before)
    have inside : call < count := Nat.lt_of_lt_of_le before run.stop_le
    exact ((ih (Nat.le_of_succ_le before)).next_item counted (stores call) inside read).2

theorem stands_ended (counted : paging.blockCount? = some count) {first : Nat}
    (ended : (walk.afterCalls stores first).Stands paging count) (more : Nat) :
    (walk.afterCalls stores (first + more)).Stands paging count := by
  induction more with
  | zero => exact ended
  | succ more ih =>
    rw [← Nat.add_assoc, afterCalls, ih.next_past counted _ (Nat.le_refl count)]
    exact ih

theorem stops_of_run (image : Image)
    (positive : ∀ geometry, image.backend.paging = .bytes geometry → 0 < geometry.pageSize)
    {stop : Nat} (run : Run (fun block => (start image).blockAt stores block ≠ .ok none) 0
      image.blockCount stop) : Stops stores image stop := by
  have counted := Image.paging_counted positive
  have stands : ∀ call ≤ stop,
      ((start image).afterCalls stores call).Stands image.backend.paging call :=
    fun call => stands_afterCalls counted (stands_start image) run
  have step : (start image).answer stores stop = none ∧
      ((start image).afterCalls stores (stop + 1)).Stands image.backend.paging
        image.blockCount := by
    rcases Nat.lt_or_eq_of_le run.stop_le with inside | rfl
    · exact (stands stop (Nat.le_refl stop)).next_none counted _ inside
        (Classical.not_not.mp (run.gap inside))
    · have past := (stands _ (Nat.le_refl _)).next_past counted (stores image.blockCount)
        (Nat.le_refl _)
      rw [answer, afterCalls, past]
      exact ⟨rfl, stands _ (Nat.le_refl _)⟩
  have after : ∀ call, stop < call →
      ((start image).afterCalls stores call).Stands image.backend.paging image.blockCount := by
    intro call behind
    obtain ⟨more, rfl⟩ := Nat.exists_eq_add_of_le behind
    exact stands_ended counted step.2 more
  refine ⟨run, fun call before => ?_, fun call past => ⟨?_, ?_⟩⟩
  · obtain ⟨item, read⟩ := exists_item (run.each call (Nat.zero_le _) before)
    have inside : call < image.blockCount := Nat.lt_of_lt_of_le before run.stop_le
    exact ⟨item, ((stands call (Nat.le_of_lt before)).next_item counted _ inside read).1, read⟩
  · rcases Nat.lt_or_eq_of_le past with behind | rfl
    · rw [answer, (after call behind).next_past counted _ (Nat.le_refl _)]
    · exact step.1
  · rw [(after (call + 1) (Nat.lt_succ_of_le past)).cursor,
      Paging.cursorAt_of_le counted (Nat.le_refl _), image.backend.last_eq_paging]

theorem exists_stops {image : Image}
    (positive : ∀ geometry, image.backend.paging = .bytes geometry → 0 < geometry.pageSize)
    (stores : Nat → FileStore) : ∃ stop, Stops stores image stop := by
  obtain ⟨stop, run⟩ := Run.exists_stop
    (fun block => (start image).blockAt stores block ≠ .ok none) 0 image.blockCount
  rw [Nat.zero_add] at run
  exact ⟨stop, stops_of_run image positive run⟩

/-- Each call before this one yields something. -/
def ComesTo (stores : Nat → FileStore) (image : Image) (call : Nat) : Prop :=
  ∀ earlier < call, (start image).answer stores earlier ≠ none

theorem Stops.comesTo_iff {image : Image} {stop : Nat} (stops : Stops stores image stop)
    {call : Nat} : ComesTo stores image call ↔ call ≤ stop := by
  constructor
  · intro comes
    apply Nat.le_of_not_lt
    intro behind
    exact comes stop behind (stops.ended stop (Nat.le_refl stop)).1
  · intro before earlier less
    obtain ⟨item, yielded, -⟩ := stops.items earlier (Nat.lt_of_lt_of_le less before)
    rw [yielded]
    exact Option.some_ne_none item

theorem stands_of_comesTo {image : Image}
    (positive : ∀ geometry, image.backend.paging = .bytes geometry → 0 < geometry.pageSize)
    {call : Nat} (comes : ComesTo stores image call) :
    ((start image).afterCalls stores call).Stands image.backend.paging call := by
  obtain ⟨stop, stops⟩ := exists_stops positive stores
  exact stands_afterCalls (Image.paging_counted positive) (stands_start image) stops.run
    (stops.comesTo_iff.mp comes)

/-! ## Walks that are not broken off -/

/-- The program ends with this result. -/
def BreaksOff {α : Type} (result : Except ImageError α) : Prop :=
  ∃ cause, result = .error cause ∧ cause.isFatal = true

/-- The walk ends after so many pages and errors, none of which breaks it off. -/
structure EndsAfter (stores : Nat → FileStore) (image : Image) (stop : Nat) : Prop
    extends Stops stores image stop where
  held : ∀ call < stop, ¬BreaksOff ((start image).blockAt stores call)

theorem exists_endsAfter_iff {image : Image}
    (positive : ∀ geometry, image.backend.paging = .bytes geometry → 0 < geometry.pageSize) :
    (∃ stop, EndsAfter stores image stop) ↔
      ∀ call < image.blockCount, ComesTo stores image call →
        ¬BreaksOff ((start image).blockAt stores call) := by
  constructor
  · rintro ⟨stop, ends⟩ call inside comes
    rcases Nat.lt_or_eq_of_le (ends.comesTo_iff.mp comes) with before | rfl
    · exact ends.held call before
    · rintro ⟨cause, broken, -⟩
      exact ends.run.gap inside fun none => by cases none.symm.trans broken
  · intro held
    obtain ⟨stop, stops⟩ := exists_stops positive stores
    refine ⟨stop, stops, fun call before => ?_⟩
    exact held call (Nat.lt_of_lt_of_le before stops.run.stop_le)
      (stops.comesTo_iff.mpr (Nat.le_of_lt before))

/-! ## What breaks a walk off -/

theorem breaksOff_of_shape {σ : Type} {geometry : ByteGeometry}
    {pread : σ → Nat → Nat → Outcome σ ByteArray} {state : σ} {offset : Nat}
    {read : Outcome σ (Option Page)} (shape : geometry.PageRead pread state offset read)
    (some : geometry.windowAt offset ≠ 0) :
    BreaksOff read.result ↔ bufferLimit ≤ geometry.windowAt offset ∨
      BreaksOff (pread state offset (geometry.windowAt offset)).result := by
  cases shape with
  | past nothing => exact absurd nothing some
  | wide large => exact iff_of_true ⟨_, rfl, rfl⟩ (.inl large)
  | @failed cause fits fault => simp [BreaksOff, fault, Nat.not_le_of_lt fits]
  | gone fits given empty => simp [BreaksOff, given, Nat.not_le_of_lt fits]
  | short fits given more less =>
    simp [BreaksOff, given, Nat.not_le_of_lt fits, ImageError.isFatal]
  | whole fits given full => simp [BreaksOff, given, Nat.not_le_of_lt fits]

theorem Stands.breaksOff_iff {geometry : ByteGeometry}
    (stands : walk.Stands (.bytes geometry) index) (counted : geometry.blockCount? = some count) (inside : index < count) (store : FileStore) :
    BreaksOff (walk.image.readBlock store index).result ↔
      bufferLimit ≤ geometry.windowAt (index * geometry.pageSize) ∨
        BreaksOff (walk.image.pread store (index * geometry.pageSize)
          (geometry.windowAt (index * geometry.pageSize))).result := by
  obtain ⟨positive, rfl⟩ := Paging.blockCount?_bytes counted
  have within := (lt_pieceCount positive geometry.size index).mp inside
  have some : geometry.windowAt (index * geometry.pageSize) ≠ 0 := by
    rw [ByteGeometry.windowAt]
    omega
  have shape := geometry.readPage_cases (Image.pread store) walk.image (geometry.cursorAt index)
  have paged := Backend.paging?_of_paging stands.paged
  rw [geometry.offsetOf_cursorAt within, ← Image.readPage_eq paged] at shape
  rw [stands.readBlock_eq counted store inside, stands.cursor]
  exact breaksOff_of_shape shape some

theorem Stands.not_breaksOff_of_files {files : Nat} (stands : walk.Stands (.files files) index)
    (store : FileStore) : ¬BreaksOff (walk.image.readBlock store index).result := by
  have paged := stands.paged
  cases backend : walk.image.backend with
  | raw image =>
    rw [backend] at paged
    cases paged
  | container image =>
    rw [backend] at paged
    cases paged
  | directory image =>
    rintro ⟨cause, broken, fatal⟩
    rw [Image.readBlock] at broken
    split at broken
    · cases broken
    rw [Image.readPage, backend, Backend.readPage, Outcome.on, DirectoryImage.readPage] at broken
    dsimp only at broken
    split at broken
    · cases broken
    split at broken
    · cases broken
      cases fatal
    · cases broken

theorem next_kind (store : FileStore) (walk : PageWalk) :
    (next store walk).2.1.image.backend.kind = walk.image.backend.kind := by
  have kept : (walk.image.readPage store walk.cursor).state.backend.kind =
      walk.image.backend.kind := by
    rw [Image.readPage, Outcome.on, Image.withBackend]
    cases walk.image.backend <;> rfl
  rw [next]
  split
  · rfl
  · dsimp only
    split
    · exact kept
    · exact kept
    · exact kept

theorem afterCalls_kind (stores : Nat → FileStore) (walk : PageWalk) (calls : Nat) :
    (walk.afterCalls stores calls).image.backend.kind = walk.image.backend.kind := by
  induction calls with
  | zero => rfl
  | succ calls ih => rw [afterCalls, next_kind, ih]

theorem windowAt_of_no_block {geometry : ByteGeometry} (counted : geometry.blockCount? = some count)
    (none : ¬0 < count) : geometry.windowAt 0 = 0 := by
  obtain ⟨positive, rfl⟩ := Paging.blockCount?_bytes counted
  have inside := lt_pieceCount positive geometry.size 0
  rw [ByteGeometry.windowAt]
  omega

theorem kind_of_breaksOff {image : Image} {store : FileStore} {offset length : Nat}
    (broken : BreaksOff (image.pread store offset length).result) :
    image.backend.kind = .container := by
  obtain ⟨cause, broken, fatal⟩ := broken
  rw [Image.pread, Outcome.on] at broken
  cases backend : image.backend with
  | container container => rfl
  | directory directory =>
    rw [backend] at broken
    cases broken
    cases fatal
  | raw parts =>
    rw [backend, Backend.pread, RawImage.pread] at broken
    cases opened : parts.index with
    | none =>
      rw [opened] at broken
      cases broken
    | some index =>
      rw [opened] at broken
      dsimp only [Outcome.on] at broken
      rw [Outcome.reporting_result] at broken
      obtain ⟨position, failure, rfl⟩ := SplitIndex.exists_io_of_read broken
      cases fatal

/-- Whatever the reads of a walk come to, each over files of its own, the walk ends as it should if
and only if a buffer can hold the first window and no read of a container breaks it off. -/
theorem walk_ends_iff {image : Image}
    (positive : ∀ geometry, image.backend.paging = .bytes geometry → 0 < geometry.pageSize)
    (stores : Nat → FileStore) :
    (∃ stop, EndsAfter stores image stop) ↔
      ∀ geometry, image.backend.paging = .bytes geometry →
        geometry.windowAt 0 < bufferLimit ∧
        (image.backend.kind = .container →
          ∀ call < image.blockCount, ComesTo stores image call →
            ¬BreaksOff (((start image).afterCalls stores call).image.pread (stores call)
              (call * geometry.pageSize)
              (geometry.windowAt (call * geometry.pageSize))).result) := by
  have counted := Image.paging_counted positive
  rw [exists_endsAfter_iff positive]
  constructor
  · intro held geometry paged
    rw [paged] at counted
    have fine : ∀ call < image.blockCount, ComesTo stores image call →
        geometry.windowAt (call * geometry.pageSize) < bufferLimit ∧
        ¬BreaksOff (((start image).afterCalls stores call).image.pread (stores call)
          (call * geometry.pageSize) (geometry.windowAt (call * geometry.pageSize))).result := by
      intro call inside comes
      have stands := stands_of_comesTo positive comes
      rw [paged] at stands
      have small := held call inside comes
      rw [blockAt, stands.breaksOff_iff counted inside] at small
      exact ⟨Nat.lt_of_not_le fun large => small (.inl large), fun large => small (.inr large)⟩
    refine ⟨?_, fun _ call inside comes => (fine call inside comes).2⟩
    by_cases some : 0 < image.blockCount
    · have first := (fine 0 some fun earlier less => absurd less (Nat.not_lt_zero _)).1
      rwa [Nat.zero_mul] at first
    · rw [windowAt_of_no_block counted some]
      decide
  · intro fine call inside comes
    have stands := stands_of_comesTo positive comes
    cases paged : image.backend.paging with
    | files files =>
      rw [paged] at stands
      exact stands.not_breaksOff_of_files (stores call)
    | bytes geometry =>
      rw [paged] at stands counted
      obtain ⟨first, reads⟩ := fine geometry paged
      have narrower : geometry.windowAt (call * geometry.pageSize) ≤ geometry.windowAt 0 := by
        simp only [ByteGeometry.windowAt]
        omega
      rw [blockAt, stands.breaksOff_iff counted inside]
      rintro (large | large)
      · omega
      · have container := kind_of_breaksOff large
        rw [afterCalls_kind] at container
        exact reads container call inside comes large

/-- The walk over the three parts in two blocks: the third part is gone at the first call, and is
there but empty at the second. -/
def failingStores : Nat → FileStore
  | 0 => withoutThird
  | _ => { RawImage.threeParts with contents := #[ofBytes [1, 2, 3], .empty, .empty] }

theorem walk_ends_early :
    (∀ geometry, (Image.relabelled Image.widePages.config).backend.paging = .bytes geometry →
      0 < geometry.pageSize) ∧
    (Image.relabelled Image.widePages.config).blockCount = 2 ∧
    EndsAfter failingStores (Image.relabelled Image.widePages.config) 1 := by
  have paged : (Image.relabelled Image.widePages.config).backend.paging = .bytes ⟨5, 4, 1⟩ := rfl
  have positive : ∀ geometry, (Image.relabelled Image.widePages.config).backend.paging =
      .bytes geometry → 0 < geometry.pageSize := by
    intro geometry same
    cases paged.symm.trans same
    decide
  have ends : ∃ stop, EndsAfter failingStores (Image.relabelled Image.widePages.config) stop := by
    rw [walk_ends_iff positive]
    intro geometry same
    cases paged.symm.trans same
    refine ⟨by decide, fun container => ?_⟩
    cases container
  refine ⟨positive, rfl, ?_⟩
  obtain ⟨stop, ends⟩ := ends
  have first : ((start (Image.relabelled Image.widePages.config)).answer failingStores 0).isSome =
      true := by decide +kernel
  have second : ((start (Image.relabelled Image.widePages.config)).answer failingStores 1).isNone =
      true := by decide +kernel
  obtain rfl : stop = 1 := by
    apply Nat.le_antisymm
    · apply Nat.le_of_not_lt
      intro more
      obtain ⟨item, yielded, -⟩ := ends.items 1 more
      rw [yielded] at second
      cases second
    · apply Nat.le_of_not_lt
      intro less
      rw [(ends.ended 0 (Nat.le_of_lt_succ less)).1] at first
      cases first
  exact ends

/-- Media of 2 ^ 63 bytes, of which no read gives any. -/
def hugeMedia : SuppliedMedia where
  size := bufferLimit
  read _ _ _ := .ok .empty
  caseValue _ := none

def hugePages : ContainerImage where
  path := ⟨"m.E01"⟩
  config := { pageSize := bufferLimit, margin := 0 }
  codec := ⟨"memory", fun _ path => .ok [path], fun _ _ => .ok (.supplied hugeMedia)⟩

def hugeStore : FileStore where
  entries := [(["work"], .directory), (["m.E01", "work"], .regular 0)]
  contents := #[.empty]
  workingDirectory := ["work"]

def hugeImage : Image where
  backend := .container { hugePages with opened := some ⟨.supplied hugeMedia, [⟨"m.E01"⟩], []⟩ }
  config := hugePages.config

/-- The page of the only block is as large as the image, and no buffer can hold it. -/
theorem walk_breaks_off :
    hugePages.config.validate = .ok () ∧
      Image.openWith hugeStore hugePages.path false hugePages.config (some hugePages.codec) =
        (.ok hugeImage, []) ∧
      hugeImage.blockCount = 1 ∧
      (∀ stores, (start hugeImage).answer stores 0 =
        some (.error (.bufferTooLarge bufferLimit))) ∧
      ∀ stores stop, ¬EndsAfter stores hugeImage stop := by
  have broken : ∀ stores, BreaksOff ((start hugeImage).blockAt stores 0) := by
    intro stores
    have counted : (ByteGeometry.mk bufferLimit bufferLimit 0).blockCount? = some 1 := by decide
    have stands : (start hugeImage).Stands (.bytes ⟨bufferLimit, bufferLimit, 0⟩) 0 :=
      stands_start hugeImage
    exact (stands.breaksOff_iff counted Nat.one_pos (stores 0)).mpr (.inl (by decide))
  have first : ∀ stores, (start hugeImage).answer stores 0 =
      some (.error (.bufferTooLarge bufferLimit)) :=
    fun stores => next_of_wide (stores 0) (show hugeImage.backend.paging? = _ from rfl) (by decide)
  refine ⟨rfl, by rfl, by decide, first, fun stores stop ends => ?_⟩
  by_cases some : 0 < stop
  · exact ends.held 0 some (broken stores)
  · obtain rfl : stop = 0 := Nat.eq_zero_of_not_pos some
    obtain ⟨cause, result, -⟩ := broken stores
    exact ends.run.gap (by decide) fun none => by cases none.symm.trans result

end PageWalk

end EvidencePages

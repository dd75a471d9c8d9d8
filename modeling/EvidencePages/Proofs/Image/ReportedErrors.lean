import EvidencePages.Proofs.Image.ReportedPages
import EvidencePages.Proofs.Raw.ShrunkParts
import EvidencePages.Proofs.Image.MissingParts

/-!
# Which page errors are reported

A failed read is logged once where it fails, if failed reads are to be reported.
A page that is too short is found out only after its read has succeeded, and that
error is not logged. It is the only one that is left out.
-/

set_option autoImplicit false

namespace EvidencePages

/-- The page was read, but not all of it was there. -/
def ImageError.IsShort (cause : ImageError) : Prop :=
  ∃ offset expected actual, cause = .read offset (.short expected actual)

namespace Outcome

variable {σ α : Type}

/-- One warning for a failed read, if such are to be reported, and none for anything else. -/
def dueWarnings (report : Bool) : Except ImageError α → List Warning
  | .ok _ => []
  | .error cause => if report && cause.isReadError then [.readError] else []

structure Reports (report : Bool) (outcome : Outcome σ α) : Prop where
  warnings : outcome.warnings = dueWarnings report outcome.result
  plain : ∀ cause, outcome.result = .error cause → ¬cause.IsShort

theorem reports_ok {report : Bool} {outcome : Outcome σ α} {answer : α}
    (success : outcome.result = .ok answer) (silent : outcome.warnings = []) :
    outcome.Reports report := by
  constructor
  · rw [success, silent, dueWarnings]
  · intro cause failed
    rw [success] at failed
    cases failed

theorem reporting_reports {outcome : Outcome σ α} (report : Bool) (silent : outcome.warnings = [])
    (plain : ∀ cause, outcome.result = .error cause → ¬cause.IsShort) :
    (outcome.reporting report).Reports report := by
  constructor
  · rw [reporting_result, reporting]
    cases result : outcome.result with
    | ok answer => simp [dueWarnings, silent]
    | error cause =>
      by_cases due : (report && cause.isReadError) = true
      · simp [dueWarnings, due, silent]
      · simp [dueWarnings, due, silent]
  · rw [reporting_result]
    exact plain

end Outcome

/-- Reading a split image fails only where the operating system does. -/
theorem SplitIndex.exists_io_of_read {store : FileStore} {index : SplitIndex} {offset length : Nat}
    {cause : ImageError} (failed : (read store index offset length).1 = .error cause) :
    ∃ position failure, cause = .read position (.io failure) := by
  fun_induction read store index offset length with
  | case1 => cases failed
  | case2 => cases failed
  | case3 =>
    cases failed
    exact ⟨_, _, rfl⟩
  | case4 =>
    cases failed
    exact ⟨_, _, rfl⟩
  | case5 => cases failed
  | case6 index offset length some part segment found within handle pool fetched piece read more
      cause rest tail ih =>
    cases failed
    exact ih (congrArg Prod.fst tail)
  | case7 => cases failed

theorem RawImage.pread_reports (store : FileStore) (image : RawImage) (offset length : Nat) :
    (pread store image offset length).Reports image.config.reportReadErrors := by
  rw [pread]
  cases image.index with
  | none => exact Outcome.reports_ok rfl rfl
  | some index =>
    apply Outcome.reporting_reports _ rfl
    rintro cause failed ⟨position, expected, actual, rfl⟩
    obtain ⟨place, failure, same⟩ := SplitIndex.exists_io_of_read failed
    cases same

theorem ContainerImage.pread_reports (store : FileStore) (image : ContainerImage)
    (offset length : Nat) :
    (pread store image offset length).Reports image.config.reportReadErrors := by
  rw [pread]
  cases image.opened with
  | none => exact Outcome.reports_ok rfl rfl
  | some container =>
    dsimp only
    by_cases past : container.media.size ≤ offset
    · rw [if_pos past]
      exact Outcome.reports_ok rfl rfl
    rw [if_neg past]
    cases container.media.readAt store offset (min length (container.media.size - offset)) with
    | mk result media =>
      cases result with
      | ok bytes => exact Outcome.reports_ok rfl rfl
      | error failure =>
        apply Outcome.reporting_reports _ rfl
        rintro cause failed ⟨position, expected, actual, rfl⟩
        cases failure <;> cases failed

namespace Backend

variable {backend : Backend} {config : Config}

theorem pread_reports (configured : backend.config? = some config) (store : FileStore)
    (offset length : Nat) :
    (backend.pread store offset length).Reports config.reportReadErrors := by
  cases backend with
  | raw image =>
    cases configured
    obtain ⟨warnings, plain⟩ := image.pread_reports store offset length
    exact ⟨warnings, plain⟩
  | container image =>
    cases configured
    obtain ⟨warnings, plain⟩ := image.pread_reports store offset length
    exact ⟨warnings, plain⟩
  | directory image => cases configured

end Backend

def Outcome.FallsShort {σ : Type} (outcome : Outcome σ (Option Page)) : Prop :=
  ∃ cause, outcome.result = .error cause ∧ cause.IsShort

namespace ByteGeometry

variable {σ : Type} {report : Bool} {geometry : ByteGeometry}
  {pread : σ → Nat → Nat → Outcome σ ByteArray} {state : σ} {offset : Nat}
  {read : Outcome σ (Option Page)}

def ReadsShort (geometry : ByteGeometry) (pread : σ → Nat → Nat → Outcome σ ByteArray)
    (state : σ) (offset : Nat) : Prop :=
  geometry.windowAt offset < bufferLimit ∧
    ∃ bytes, (pread state offset (geometry.windowAt offset)).result = .ok bytes ∧
      0 < bytes.size ∧ bytes.size < geometry.windowAt offset

/-- A page that falls short is told after its read was fine, and is not logged. Any other page is
logged as its read is. -/
theorem PageRead.logged (shape : geometry.PageRead pread state offset read)
    (reports : (pread state offset (geometry.windowAt offset)).Reports report) :
    (geometry.ReadsShort pread state offset ∧ read.FallsShort ∧ read.warnings = []) ∨
      (¬geometry.ReadsShort pread state offset ∧ ¬read.FallsShort ∧
        read.warnings = Outcome.dueWarnings report read.result) := by
  have logged := reports.warnings
  -- Only a page that falls short has an error that its read did not have.
  cases shape with
  | past nothing =>
    refine .inr ⟨?_, ?_, rfl⟩
    · rintro ⟨-, bytes, -, -, less⟩
      omega
    · rintro ⟨cause, failed, -⟩
      cases failed
  | wide large =>
    refine .inr ⟨?_, ?_, by simp [Outcome.dueWarnings, ImageError.isReadError]⟩
    · rintro ⟨fits, -⟩
      exact absurd large (Nat.not_le_of_lt fits)
    · rintro ⟨cause, failed, offset, expected, actual, rfl⟩
      cases failed
  | @failed cause fits fault =>
    rw [fault] at logged
    refine .inr ⟨?_, ?_, logged⟩
    · rintro ⟨-, bytes, given, -⟩
      cases fault.symm.trans given
    · rintro ⟨short, same, isShort⟩
      cases same
      exact reports.plain cause fault isShort
  | @gone bytes fits given empty =>
    rw [given] at logged
    refine .inr ⟨?_, ?_, logged⟩
    · rintro ⟨-, others, same, more, -⟩
      cases given.symm.trans same
      omega
    · rintro ⟨cause, failed, -⟩
      cases failed
  | @short bytes fits given more less =>
    rw [given] at logged
    exact .inl ⟨⟨fits, bytes, given, more, less⟩, ⟨_, rfl, _, _, _, rfl⟩, logged⟩
  | @whole bytes page fits given full =>
    rw [given] at logged
    refine .inr ⟨?_, ?_, logged⟩
    · rintro ⟨-, others, same, -, less⟩
      cases given.symm.trans same
      omega
    · rintro ⟨cause, failed, -⟩
      cases failed

end ByteGeometry

namespace Backend

variable {backend : Backend} {config : Config}

theorem exists_paging (configured : backend.config? = some config) :
    ∃ geometry, backend.paging? = some geometry := by
  cases backend with
  | raw image => exact ⟨_, rfl⟩
  | container image => exact ⟨_, rfl⟩
  | directory image => cases configured

/-- Over any files and codec and at any cursor, a raw or container image logs one warning for a page
that cannot be read, if such are to be reported, and none for a page, the end, or anything else,
unless they are to be reported and the page falls short. A page falls short exactly if its read
gives some of its window but not all, and logs nothing then. -/
theorem logged_once_iff (configured : backend.config? = some config) (store : FileStore)
    (cursor : Cursor) :
    ∃ geometry, backend.paging? = some geometry ∧
      let read := backend.readPage store cursor
      (read.warnings = Outcome.dueWarnings config.reportReadErrors read.result ↔
        ¬(config.reportReadErrors = true ∧ read.FallsShort)) ∧
      (read.FallsShort ↔
        geometry.ReadsShort (Backend.pread store) backend (geometry.offsetOf cursor)) ∧
      (read.FallsShort → read.warnings = []) := by
  obtain ⟨geometry, paged⟩ := exists_paging configured
  have reports := pread_reports configured store (geometry.offsetOf cursor)
    (geometry.windowAt (geometry.offsetOf cursor))
  have shape := geometry.readPage_cases (Backend.pread store) backend cursor
  rw [← readPage_eq paged] at shape
  refine ⟨geometry, paged, ?_⟩
  rcases shape.logged reports with ⟨short, falls, silent⟩ | ⟨whole, holds, logged⟩
  · refine ⟨?_, iff_of_true falls short, fun _ => silent⟩
    obtain ⟨cause, failed, offset, expected, actual, rfl⟩ := falls
    rw [silent, failed]
    cases config.reportReadErrors with
    | false => simp [Outcome.dueWarnings]
    | true => simp [Outcome.dueWarnings, Outcome.FallsShort, failed, ImageError.isReadError,
        ImageError.IsShort]
  · refine ⟨iff_of_true logged fun ⟨_, falls⟩ => holds falls, iff_of_false holds whole,
      fun falls => absurd falls holds⟩

end Backend

theorem Outcome.failed_of_map {σ α : Type} {outcome : Outcome σ α} {cause : ImageError}
    (failed : outcome.result.map (fun _ => ()) = .error cause) : outcome.result = .error cause := by
  cases result : outcome.result with
  | ok answer =>
    rw [result] at failed
    cases failed
  | error other =>
    rw [result] at failed
    cases failed
    rfl

namespace Image

theorem logged_without_third :
    (relabelled widePages.config).backend.config? = some widePages.config ∧
      ((relabelled widePages.config).backend.readPage PageWalk.withoutThird
        (.atByte 0 false)).result = .error (.read 3 (.io .notFound)) ∧
      ((relabelled widePages.config).backend.readPage PageWalk.withoutThird
        (.atByte 0 false)).warnings = [.readError] := by
  have configured : (relabelled widePages.config).backend.config? = some widePages.config := rfl
  have failed : ((relabelled widePages.config).backend.readPage PageWalk.withoutThird
      (.atByte 0 false)).result = .error (.read 3 (.io .notFound)) :=
    Outcome.failed_of_map (by decide +kernel)
  obtain ⟨geometry, -, logged, -, -⟩ :=
    Backend.logged_once_iff configured PageWalk.withoutThird (.atByte 0 false)
  refine ⟨configured, failed, ?_⟩
  rw [logged.mpr, failed]
  · rfl
  · rintro ⟨-, cause, short, position, expected, actual, rfl⟩
    cases failed.symm.trans short

/-- The first part was cut to one byte: the first page falls short, and nothing is logged although
failed reads are to be. -/
theorem unlogged_firstCut :
    RawImage.openImage RawImage.threeParts widePages =
        .ok { widePages with index := some RawImage.threePartsIndex } ∧
      widePages.config.reportReadErrors = true ∧
      ((relabelled widePages.config).backend.readPage RawImage.firstCut (.atByte 0 false)).result =
        .error (.read 0 (.short 5 1)) ∧
      ((relabelled widePages.config).backend.readPage RawImage.firstCut
        (.atByte 0 false)).warnings = [] := by
  refine ⟨rfl, rfl, Outcome.failed_of_map ?_, ?_⟩
  · decide +kernel
  · decide +kernel

end Image

end EvidencePages

import EvidencePages.Proofs.Image.Selection
import EvidencePages.Proofs.Store.Listing

/-!
# Why an image is not opened

Whatever goes wrong while an image is opened is told by an error of opening, if
the program does not end with it. The causes are few: the configuration, a path
that is not there, a directory that is not to be gone into, cannot be listed or
holds parts of an image, a container without a codec, and a backend that does
not open. The configuration is looked at first, and any failure of a backend but
a missing file or its own configuration is told as a missing file.
-/

set_option autoImplicit false

namespace EvidencePages

/-- The final component has the extension of a part of an image. -/
def Path.EndsAsPart (path : Path) : Prop :=
  ∃ ext ∈ Image.partExtensions, path.extension = some ext

instance (path : Path) : Decidable path.EndsAsPart :=
  inferInstanceAs (Decidable (∃ ext ∈ Image.partExtensions, path.extension = some ext))

theorem Path.extension_join {dir : Path} {name : String} (nonempty : dir.text ≠ "")
    (apart : '/' ∉ name.toList) (solid : isBlank name = false) (parent : name ≠ "..") :
    (dir.join name).extension = (splitName name).2 := by
  obtain ⟨first, front, -, cut⟩ := exists_cut_join nonempty
  have named : (dir.join name).fileName = some name := by
    have last : Text.cut '/' (dir.join name).text = (first :: front) ++ [name] := cut name apart
    rw [fileName_of_cut last solid, if_neg parent]
  rw [extension, named, Option.bind_some]

theorem Path.endsAsPart_join_iff {dir : Path} {name : String} (nonempty : dir.text ≠ "")
    (apart : '/' ∉ name.toList) (solid : isBlank name = false) (parent : name ≠ "..") :
    (dir.join name).EndsAsPart ↔
      ∃ stem ≠ "", ∃ ext ∈ Image.partExtensions, name = stem ++ "." ++ ext := by
  rw [EndsAsPart, extension_join nonempty apart solid parent]
  constructor
  · rintro ⟨ext, listed, told⟩
    obtain ⟨some, whole⟩ := splitName_of_extension told
    exact ⟨_, some, ext, listed, whole⟩
  · rintro ⟨stem, some, ext, listed, rfl⟩
    have dotless : ∀ ext ∈ Image.partExtensions, '.' ∉ ext.toList := by decide
    exact ⟨ext, listed, by rw [splitName_append some (dotless ext listed)]⟩

namespace Image

theorem findImagePart_eq (dir : Path) (names : List String) :
    findImagePart dir names = (names.map dir.join).find? (decide ·.EndsAsPart) := by
  rw [findImagePart]
  congr 1
  funext entry
  cases told : entry.extension with
  | none => simp [Path.EndsAsPart, told]
  | some ext => simp [Path.EndsAsPart, told]

theorem findImagePart_eq_none {dir : Path} {names : List String} :
    findImagePart dir names = none ↔ ∀ name ∈ names, ¬(dir.join name).EndsAsPart := by
  simp [findImagePart_eq, List.find?_eq_none]

theorem findImagePart_eq_some {dir : Path} {names : List String} {part : Path} :
    findImagePart dir names = some part ↔
      ∃ before name after, names = before ++ name :: after ∧ part = dir.join name ∧
        part.EndsAsPart ∧ ∀ other ∈ before, ¬(dir.join other).EndsAsPart := by
  rw [findImagePart_eq, List.find?_map]
  simp only [List.find?_eq_some_iff_append, Option.map_eq_some_iff, Function.comp_apply,
    decide_eq_true_eq, decide_eq_false_iff_not, Bool.not_eq_true']
  constructor
  · rintro ⟨name, ⟨ends, before, after, listed, first⟩, rfl⟩
    exact ⟨before, name, after, listed, rfl, ends, first⟩
  · rintro ⟨before, name, after, listed, rfl, ends, first⟩
    exact ⟨name, ⟨ends, before, after, listed, first⟩, rfl⟩

/-! ## Openings that fail -/

/-- Why an image at a path is not opened, with the error that tells it. -/
inductive Refused (store : FileStore) (path : Path) (recurse : Bool) (config : Config)
    (codec : Option Codec) : ImageError → Prop
  | misconfigured {cause : ConfigError} (invalid : config.validate = .error cause) :
    Refused store path recurse config codec (.invalidConfig cause)
  | missing {cause : IoError} (valid : config.validate = .ok ())
    (nothing : store.find path = .error cause) :
    Refused store path recurse config codec (.noSuchFile path (.noEntry cause))
  | flat (valid : config.validate = .ok ()) (directory : store.find path = .ok .directory)
    (flat : recurse = false) :
    Refused store path recurse config codec (.noSuchFile path .isDirectory)
  | unlisted {cause : IoError} (valid : config.validate = .ok ())
    (directory : store.find path = .ok .directory) (deep : recurse = true)
    (unlisted : store.names path = .error cause) :
    Refused store path recurse config codec (.noSuchFile path (.noEntry cause))
  | parted {before after : List String} {name : String} (valid : config.validate = .ok ())
    (directory : store.find path = .ok .directory) (deep : recurse = true)
    (listed : store.names path = .ok (before ++ name :: after))
    (part : (path.join name).EndsAsPart)
    (first : ∀ other ∈ before, ¬(path.join other).EndsAsPart) :
    Refused store path recurse config codec
      (.noSuchFile path (.holdsImagePart (path.join name)))
  | uncoded {node : Node} (valid : config.validate = .ok ()) (there : store.find path = .ok node)
    (plain : node ≠ .directory) (container : isContainerPath path = true) (bare : codec = none) :
    Refused store path recurse config codec .noCodec
  | unopened {backend : Backend} {cause : ImageError} (valid : config.validate = .ok ())
    (selected : (select store path recurse config codec).1 = .ok backend)
    (failed : (backend.openBackend store).result = .error cause) :
    Refused store path recurse config codec (openingError backend.path cause)

def TellsOpening (cause : ImageError) : Prop :=
  (∃ path reason, cause = .noSuchFile path reason) ∨ ∃ reason, cause = .invalidConfig reason

theorem TellsOpening.isOpenError {cause : ImageError} (tells : TellsOpening cause) :
    cause.isOpenError = true := by
  rcases tells with ⟨path, reason, rfl⟩ | ⟨reason, rfl⟩
  · rfl
  · rfl

theorem isFatal_openingError (path : Path) (cause : ImageError) :
    (openingError path cause).isFatal = cause.isFatal := by
  cases cause <;> rfl

theorem tellsOpening_openingError (path : Path) {cause : ImageError}
    (returned : cause.isFatal = false) : TellsOpening (openingError path cause) := by
  cases cause with
  | noSuchFile inner reason => exact .inl ⟨inner, reason, rfl⟩
  | invalidConfig reason => exact .inr ⟨reason, rfl⟩
  | noSupport text => exact .inl ⟨path, _, rfl⟩
  | read offset failure => exact .inl ⟨path, _, rfl⟩
  | unsupportedOperation backend operation => exact .inl ⟨path, _, rfl⟩
  | probeExhausted => exact .inl ⟨path, _, rfl⟩
  | bufferTooLarge length => cases returned
  | overflow => cases returned

variable {store : FileStore} {path : Path} {recurse : Bool} {config : Config}
  {codec : Option Codec} {cause : ImageError}

theorem openOver_error {σ : Type} {opening : Unit → Outcome σ Unit}
    (failed : (openOver config path opening).1 = .error cause) :
    (∃ invalid, config.validate = .error invalid ∧ cause = .invalidConfig invalid) ∨
      config.validate = .ok () ∧ ∃ failure, (opening ()).result = .error failure ∧
        cause = openingError path failure := by
  rw [openOver] at failed
  cases checked : config.validate with
  | error invalid =>
    rw [checked] at failed
    cases failed
    exact .inl ⟨invalid, rfl, rfl⟩
  | ok =>
    rw [checked] at failed
    cases opened : (opening ()).result with
    | error failure =>
      simp only [opened] at failed
      cases failed
      exact .inr ⟨rfl, failure, rfl, rfl⟩
    | ok =>
      simp only [opened] at failed
      cases failed

theorem tellsOpening_of_openOver {σ : Type} {opening : Unit → Outcome σ Unit}
    (failed : (openOver config path opening).1 = .error cause)
    (returned : cause.isFatal = false) : TellsOpening cause := by
  rcases openOver_error failed with ⟨invalid, -, rfl⟩ | ⟨-, failure, -, rfl⟩
  · exact .inr ⟨invalid, rfl⟩
  · rw [isFatal_openingError] at returned
    exact tellsOpening_openingError path returned

theorem openOver_of_ofBackend {backend : Backend}
    (failed : (ofBackend store backend config).1 = .error cause) :
    (openOver config backend.path fun _ => backend.openBackend store).1 = .error cause := by
  rw [ofBackend] at failed
  split at failed
  · rename_i same
    cases failed
    rw [same]
  · cases failed

theorem openWith_of_invalid {invalid : ConfigError} (checked : config.validate = .error invalid) :
    openWith store path recurse config codec = (.error (.invalidConfig invalid), []) := by
  rw [openWith, checked]

theorem openWith_of_selected {backend : Backend} {warnings : List Warning}
    (valid : config.validate = .ok ())
    (selected : select store path recurse config codec = (.ok backend, warnings)) :
    openWith store path recurse config codec =
      ((ofBackend store backend config).1, warnings ++ (ofBackend store backend config).2) := by
  rw [openWith, valid]
  dsimp only
  rw [selected]

theorem openWith_of_unselected {warnings : List Warning} (valid : config.validate = .ok ())
    (failed : select store path recurse config codec = (.error cause, warnings)) :
    openWith store path recurse config codec = (.error cause, warnings) := by
  rw [openWith, valid]
  dsimp only
  rw [failed]

/-! ## Directories -/

def HoldsPart (path : Path) (names : List String) : Prop :=
  ∃ name ∈ names, (path.join name).EndsAsPart

theorem select_of_flat (directory : store.find path = .ok .directory) (flat : recurse = false) :
    select store path recurse config codec = (.error (.noSuchFile path .isDirectory), []) := by
  rw [select.eq_def, directory, flat]
  rfl

theorem select_of_unlisted {refusal : IoError} (directory : store.find path = .ok .directory)
    (deep : recurse = true) (unlisted : store.names path = .error refusal) :
    select store path recurse config codec =
      (.error (.noSuchFile path (.noEntry refusal)), []) := by
  rw [select.eq_def, directory, deep]
  simp only [if_true, selectDirectory, unlisted]

theorem select_of_part {names : List String} {part : Path}
    (directory : store.find path = .ok .directory) (deep : recurse = true)
    (listed : store.names path = .ok names) (found : findImagePart path names = some part) :
    select store path recurse config codec =
      (.error (.noSuchFile path (.holdsImagePart part)), []) := by
  rw [select.eq_def, directory, deep]
  simp only [if_true, selectDirectory, listed, found]

theorem select_of_files {names : List String} (directory : store.find path = .ok .directory)
    (deep : recurse = true) (listed : store.names path = .ok names)
    (apart : findImagePart path names = none) :
    select store path recurse config codec =
      (.ok (.directory (DirectoryImage.scan store path).1),
        (DirectoryImage.scan store path).2) := by
  rw [select.eq_def, directory, deep]
  simp only [if_true, selectDirectory, listed, apart]

theorem root_scan (store : FileStore) (path : Path) :
    (DirectoryImage.scan store path).1.root = path := by
  rw [DirectoryImage.scan]
  split
  · rfl
  · split <;> rfl

/-! ## Files -/

theorem select_of_uncoded {node : Node} (there : store.find path = .ok node)
    (plain : node ≠ .directory) (container : isContainerPath path = true) :
    select store path recurse config none = (.error .noCodec, []) := by
  rw [select.eq_def, there]
  cases node with
  | directory => exact absurd rfl plain
  | regular file => simp only [if_pos container]
  | link target => simp only [if_pos container]
  | device kind => simp only [if_pos container]

theorem select_of_raw {node : Node} (there : store.find path = .ok node)
    (plain : node ≠ .directory) (raw : ¬isContainerPath path = true) :
    select store path recurse config codec = (.ok (.raw { path, config }), []) := by
  rw [select.eq_def, there]
  cases node with
  | directory => exact absurd rfl plain
  | regular file => simp only [if_neg raw]
  | link target => simp only [if_neg raw]
  | device kind => simp only [if_neg raw]

/-! ## Every failure -/

theorem refused_of_select (valid : config.validate = .ok ()) {warnings : List Warning}
    (failed : select store path recurse config codec = (.error cause, warnings)) :
    Refused store path recurse config codec cause := by
  cases there : store.find path with
  | error missing =>
    rw [select.eq_def, there] at failed
    cases failed
    exact .missing valid there
  | ok node =>
    by_cases directory : node = .directory
    · subst directory
      cases deep : recurse with
      | false =>
        rw [select_of_flat there deep] at failed
        cases failed
        exact .flat valid there rfl
      | true =>
        cases listed : store.names path with
        | error refusal =>
          rw [select_of_unlisted there deep listed] at failed
          cases failed
          exact .unlisted valid there rfl listed
        | ok names =>
          cases found : findImagePart path names with
          | none =>
            rw [select_of_files there deep listed found] at failed
            cases failed
          | some part =>
            rw [select_of_part there deep listed found] at failed
            cases failed
            obtain ⟨before, name, after, rfl, rfl, ends, first⟩ := findImagePart_eq_some.mp found
            exact .parted valid there rfl listed ends first
    · by_cases container : isContainerPath path = true
      · cases codec with
        | none =>
          rw [select_of_uncoded there directory container] at failed
          cases failed
          exact .uncoded valid there directory container rfl
        | some codec =>
          rw [select_of_find there directory] at failed
          cases failed
      · rw [select_of_raw there directory container] at failed
        cases failed

/-- An image is not opened exactly for one of the causes. -/
theorem openWith_error_iff :
    (openWith store path recurse config codec).1 = .error cause ↔
      Refused store path recurse config codec cause := by
  constructor
  · intro failed
    -- In the order of opening: the configuration, the choice of a backend, its opening.
    cases checked : config.validate with
    | error invalid =>
      rw [openWith_of_invalid checked] at failed
      cases failed
      exact .misconfigured checked
    | ok =>
      cases selected : select store path recurse config codec with
      | mk result warnings =>
        cases result with
        | error refusal =>
          rw [openWith_of_unselected checked selected] at failed
          cases failed
          exact refused_of_select checked selected
        | ok backend =>
          rw [openWith_of_selected checked selected] at failed
          rcases openOver_error (openOver_of_ofBackend failed) with
            ⟨invalid, broken, -⟩ | ⟨-, failure, opening, rfl⟩
          · rw [checked] at broken
            cases broken
          · exact .unopened checked (congrArg Prod.fst selected) opening
  · intro refused
    cases refused with
    | misconfigured invalid => rw [openWith_of_invalid invalid]
    | missing valid nothing =>
      rw [openWith_of_unselected valid (by rw [select.eq_def, nothing])]
    | flat valid directory flat => rw [openWith_of_unselected valid (select_of_flat directory flat)]
    | unlisted valid directory deep unlisted =>
      rw [openWith_of_unselected valid (select_of_unlisted directory deep unlisted)]
    | @parted before after name valid directory deep listed part first =>
      have found := findImagePart_eq_some.mpr ⟨before, name, after, rfl, rfl, part, first⟩
      rw [openWith_of_unselected valid (select_of_part directory deep listed found)]
    | uncoded valid there plain container bare =>
      subst bare
      rw [openWith_of_unselected valid (select_of_uncoded there plain container)]
    | @unopened backend failure valid selected failed =>
      have selected' : select store path recurse config codec =
          (.ok backend, (select store path recurse config codec).2) := Prod.ext selected rfl
      rw [openWith_of_selected valid selected', ofBackend, openOver, valid]
      simp only [failed]

theorem Refused.isOpenError (refused : Refused store path recurse config codec cause)
    (returned : cause.isFatal = false) : cause.isOpenError = true := by
  cases refused with
  | misconfigured => rfl
  | missing => rfl
  | flat => rfl
  | unlisted => rfl
  | parted => rfl
  | uncoded => rfl
  | unopened =>
    rw [isFatal_openingError] at returned
    exact (tellsOpening_openingError _ returned).isOpenError

theorem openWith_of_directory (codec : Option Codec) (valid : config.validate = .ok ())
    {names : List String} (directory : store.find path = .ok .directory)
    (listed : store.names path = .ok names) :
    (recurse = false ∨ HoldsPart path names → ∃ reason,
      openWith store path recurse config codec = (.error (.noSuchFile path reason), [])) ∧
    (recurse = true → ¬HoldsPart path names → ∃ image warnings, image.root = path ∧
      openWith store path recurse config codec = (.ok ⟨.directory image, config⟩, warnings)) := by
  constructor
  · intro refused
    cases deep : recurse with
    | false =>
      exact ⟨_, openWith_of_unselected valid (select_of_flat directory rfl)⟩
    | true =>
      have held : HoldsPart path names := refused.resolve_left (by simp [deep])
      cases found : findImagePart path names with
      | none =>
        obtain ⟨name, there, ends⟩ := held
        exact absurd ends (findImagePart_eq_none.mp found name there)
      | some part =>
        exact ⟨_, openWith_of_unselected valid (select_of_part directory rfl listed found)⟩
  · intro deep free
    have apart : findImagePart path names = none :=
      findImagePart_eq_none.mpr fun name there ends => free ⟨name, there, ends⟩
    refine ⟨(DirectoryImage.scan store path).1, (DirectoryImage.scan store path).2 ++ [],
      root_scan store path, ?_⟩
    rw [openWith_of_selected valid (select_of_files directory deep listed apart), ofBackend,
      openOver, valid]
    rfl

/-- Opening an image, by its path or over a backend whose opening may fail in any way, returns only
errors of opening, and exactly for the causes of `Refused`; over a backend the error is a missing
file or an invalid configuration. An invalid configuration is told whatever the path and the files
are. A directory is refused if it is not to be gone into, if the host does not list it, or if some
name in it ends in the extension of a part, and is opened as a directory otherwise. Without a codec
a file that its path makes a container is not supported. -/
theorem opening_fails_openly (store : FileStore) (path : Path) (recurse : Bool) (config : Config)
    (codec : Option Codec) :
    (∀ cause, ((openWith store path recurse config codec).1 = .error cause ↔
        Refused store path recurse config codec cause) ∧
      (Refused store path recurse config codec cause → cause.isFatal = false →
        cause.isOpenError = true)) ∧
    (∀ cause, (openPath store path recurse config).1 = .error cause → cause.isFatal = false →
      cause.isOpenError = true) ∧
    (∀ (σ : Type) (opening : Unit → Outcome σ Unit) (cause : ImageError),
      (openOver config path opening).1 = .error cause → cause.isFatal = false →
      TellsOpening cause ∧ cause.isOpenError = true) ∧
    (∀ backend cause, (ofBackend store backend config).1 = .error cause → cause.isFatal = false →
      TellsOpening cause ∧ cause.isOpenError = true) ∧
    (∀ invalid, config.validate = .error invalid →
      openWith store path recurse config codec = (.error (.invalidConfig invalid), []) ∧
      openPath store path recurse config = (.error (.invalidConfig invalid), []) ∧
      ∀ (σ : Type) (opening : Unit → Outcome σ Unit),
        openOver config path opening = (.error (.invalidConfig invalid), [])) ∧
    (config.validate = .ok () → store.find path = .ok .directory →
      (recurse = false →
        openWith store path recurse config codec = (.error (.noSuchFile path .isDirectory), [])) ∧
      (recurse = true → ∀ refusal, store.names path = .error refusal →
        openWith store path recurse config codec =
          (.error (.noSuchFile path (.noEntry refusal)), [])) ∧
      (∀ names, store.names path = .ok names →
        (recurse = false ∨ HoldsPart path names → ∃ reason,
          openWith store path recurse config codec = (.error (.noSuchFile path reason), [])) ∧
        (recurse = true → ¬HoldsPart path names → ∃ image warnings, image.root = path ∧
          openWith store path recurse config codec =
            (.ok ⟨.directory image, config⟩, warnings))) ∧
      ∀ name, '/' ∉ name.toList → Path.isBlank name = false → name ≠ ".." →
        ((path.join name).EndsAsPart ↔
          ∃ stem ≠ "", ∃ ext ∈ partExtensions, name = stem ++ "." ++ ext)) ∧
    (config.validate = .ok () → ∀ node, store.find path = .ok node → node ≠ .directory →
      isContainerPath path = true →
      openWith store path recurse config none = (.error .noCodec, [])) := by
  refine ⟨fun cause => ⟨openWith_error_iff, Refused.isOpenError⟩, ?_, ?_, ?_, ?_, ?_, ?_⟩
  · intro cause failed returned
    exact (openWith_error_iff.mp failed).isOpenError returned
  · intro σ opening cause failed returned
    have tells := tellsOpening_of_openOver failed returned
    exact ⟨tells, tells.isOpenError⟩
  · intro backend cause failed returned
    have tells := tellsOpening_of_openOver (openOver_of_ofBackend failed) returned
    exact ⟨tells, tells.isOpenError⟩
  · intro invalid checked
    refine ⟨openWith_of_invalid checked, openWith_of_invalid checked, fun σ opening => ?_⟩
    rw [openOver, checked]
  · intro valid directory
    have fine := (FileStore.exists_resolve directory).1
    have nonempty := (FileStore.pathFault?_eq_none_iff.mp fine).1
    refine ⟨fun flat => ?_, fun deep refusal unlisted => ?_, fun names listed => ?_,
      fun name => Path.endsAsPart_join_iff nonempty⟩
    · exact openWith_of_unselected valid (select_of_flat directory flat)
    · exact openWith_of_unselected valid (select_of_unlisted directory deep unlisted)
    · exact openWith_of_directory codec valid directory listed
  · intro valid node there plain container
    exact openWith_of_unselected valid (select_of_uncoded there plain container)

end Image

end EvidencePages

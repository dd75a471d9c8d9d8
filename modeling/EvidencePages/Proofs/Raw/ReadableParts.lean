import EvidencePages.Proofs.Naming.CountedParts
import EvidencePages.Proofs.Raw.Pread
import EvidencePages.Proofs.Raw.SteadyRead

/-!
# Parts that can be read

The parts of an evidence file are regular files, whatever bears the next name.
The parts of a split image are all that can be opened, and a directory can be
opened. So a directory that bears the next part's name is taken for a part: the
image grows by what it reports as its length, and reads that reach it fail. No
directory stands there just when all parts behind the first can be read.
-/

set_option autoImplicit false

namespace EvidencePages

variable {store later : FileStore} {path : Path}

/-! ## What can be read -/

namespace FileStore

def granting (store : FileStore) : FileStore := { store with refusal := fun _ => none }

/-- What the path leads to gives a byte or its end to a read from its start that the host does not
refuse. -/
def Readable (store : FileStore) (path : Path) : Prop :=
  ∃ handle bytes, store.openFile path = .ok handle ∧ store.granting.readAt handle 0 1 = .ok bytes

def LeadsToDirectory (store : FileStore) (path : Path) : Prop :=
  ∃ location, store.openFile path = .ok (.directory location)

theorem readable_iff :
    store.Readable path ↔
      ∃ handle, store.openFile path = .ok handle ∧ ∀ location, handle ≠ .directory location := by
  have near : ¬offsetLimit ≤ 0 + 1 := by decide
  constructor
  · rintro ⟨handle, bytes, success, read⟩
    refine ⟨handle, success, ?_⟩
    rintro location rfl
    rw [readAt, if_neg near] at read
    cases read
  · rintro ⟨handle, success, other⟩
    refine ⟨handle, store.granting.portion handle 0 1, success, ?_⟩
    rw [readAt, if_neg near]
    cases handle with
    | file id => rfl
    | directory location => exact absurd rfl (other location)
    | device kind => rfl

theorem opens_iff : store.Opens path ↔ store.Readable path ∨ store.LeadsToDirectory path := by
  rw [readable_iff]
  constructor
  · rintro ⟨handle, success⟩
    by_cases directory : ∃ location, handle = .directory location
    · obtain ⟨location, rfl⟩ := directory
      exact .inr ⟨location, success⟩
    · exact .inl ⟨handle, success, not_exists.mp directory⟩
  · rintro (⟨handle, success, -⟩ | ⟨location, success⟩)
    · exact ⟨handle, success⟩
    · exact ⟨.directory location, success⟩

theorem not_readable_of_directory (directory : store.LeadsToDirectory path) :
    ¬store.Readable path := by
  rw [readable_iff]
  rintro ⟨handle, success, other⟩
  obtain ⟨location, leads⟩ := directory
  rw [leads] at success
  cases success
  exact other location rfl

theorem readable_of_isFile (file : store.isFile path = true) : store.Readable path := by
  obtain ⟨id, there⟩ := isFile_iff.mp file
  exact readable_iff.mpr ⟨.file id, openFile_of_find_regular there, by simp⟩

end FileStore

/-! ## The parts of a split image -/

namespace SplitName

variable {name : SplitName} {gap : Nat}

def ReadableUpTo (store : FileStore) (name : SplitName) (gap : Nat) : Prop :=
  Run (fun number => store.Readable (name.pathOf number)) name.next numberLimit gap

/-- A directory bears the name of that part. -/
def Blocked (store : FileStore) (name : SplitName) (gap : Nat) : Prop :=
  gap < numberLimit ∧ store.LeadsToDirectory (name.pathOf gap)

def partsBelow (name : SplitName) (gap : Nat) : List Path :=
  (List.range' name.next (gap - name.next)).map name.pathOf

theorem readable_partsBelow (run : ReadableUpTo store name gap) :
    ∀ part ∈ name.partsBelow gap, store.Readable part := by
  intro part listed
  obtain ⟨number, there, rfl⟩ := List.mem_map.mp listed
  obtain ⟨low, high⟩ := List.mem_range'_1.mp there
  exact run.each number low (by omega)

theorem opens_of_mem_laterParts (fits : name.next ≤ numberLimit) {part : Path}
    (listed : part ∈ name.laterParts store) : store.Opens part := by
  obtain ⟨stop, opens, all⟩ := exists_laterParts_eq fits store
  rw [all] at listed
  obtain ⟨number, there, rfl⟩ := List.mem_map.mp listed
  obtain ⟨low, high⟩ := List.mem_range'_1.mp there
  exact opens.each number low (by omega)

theorem laterParts_of_free (fits : name.next ≤ numberLimit) (run : ReadableUpTo store name gap)
    (free : ¬Blocked store name gap) : name.laterParts store = name.partsBelow gap := by
  have opens : Run (fun number => store.Opens (name.pathOf number)) name.next numberLimit gap := by
    refine ⟨run.start, run.stop_le, fun number low high => ?_, fun less => ?_⟩
    · exact FileStore.opens_iff.mpr (.inl (run.each number low high))
    · intro opened
      rcases FileStore.opens_iff.mp opened with readable | directory
      · exact run.gap less readable
      · exact free ⟨less, directory⟩
  obtain ⟨stop, also, listed⟩ := exists_laterParts_eq fits store
  rw [listed, opens.unique also, partsBelow]

theorem laterParts_of_blocked (fits : name.next ≤ numberLimit) (run : ReadableUpTo store name gap)
    (blocked : Blocked store name gap) :
    ∃ more, name.laterParts store = name.partsBelow gap ++ name.pathOf gap :: more := by
  obtain ⟨stop, opens, listed⟩ := exists_laterParts_eq fits store
  have behind : gap < stop := by
    refine Nat.lt_of_not_le fun reached => ?_
    rcases Nat.lt_or_eq_of_le reached with less | same
    · refine opens.gap (Nat.lt_of_lt_of_le less run.stop_le) ?_
      exact FileStore.opens_iff.mpr (.inl (run.each stop opens.start less))
    · refine opens.gap (same ▸ blocked.1) ?_
      exact FileStore.opens_iff.mpr (.inr (same ▸ blocked.2))
  have start := run.start
  have split : List.range' name.next (stop - name.next) =
      List.range' name.next (gap - name.next) ++ gap :: List.range' (gap + 1) (stop - gap - 1) := by
    have total : stop - name.next = (gap - name.next) + (stop - gap - 1 + 1) := by omega
    have last : name.next + (gap - name.next) = gap := by omega
    rw [total, ← List.range'_append_1, last, List.range'_succ]
  exact ⟨_, by rw [listed, split, List.map_append, List.map_cons, partsBelow]⟩

theorem length_partsBelow (name : SplitName) (gap : Nat) :
    (name.partsBelow gap).length = gap - name.next := by
  rw [partsBelow, List.length_map, List.length_range']

theorem laterParts_split (fits : name.next ≤ numberLimit) (run : ReadableUpTo store name gap) :
    name.laterParts store =
      name.partsBelow gap ++ (name.laterParts store).drop (gap - name.next) := by
  by_cases blocked : Blocked store name gap
  · obtain ⟨more, listed⟩ := laterParts_of_blocked fits run blocked
    rw [listed, ← length_partsBelow, List.drop_left]
  · rw [laterParts_of_free fits run blocked, ← length_partsBelow, List.drop_length,
      List.append_nil]

theorem parts_readable_iff (fits : name.next ≤ numberLimit) (run : ReadableUpTo store name gap) :
    (∀ part ∈ name.laterParts store, store.Readable part) ↔ ¬Blocked store name gap := by
  constructor
  · intro readable blocked
    obtain ⟨more, listed⟩ := laterParts_of_blocked fits run blocked
    exact FileStore.not_readable_of_directory blocked.2 (readable _ (by simp [listed]))
  · intro free
    rw [laterParts_of_free fits run free]
    exact readable_partsBelow run

theorem laterParts_eq_iff (fits : name.next ≤ numberLimit) (run : ReadableUpTo store name gap) :
    name.laterParts store = name.partsBelow gap ↔ ¬Blocked store name gap := by
  constructor
  · intro same blocked
    obtain ⟨more, listed⟩ := laterParts_of_blocked fits run blocked
    rw [listed] at same
    simpa using congrArg List.length same
  · exact laterParts_of_free fits run

end SplitName

/-! ## Sizes -/

namespace RawImage

variable {image opened : RawImage} {name : SplitName} {gap : Nat}

theorem lengthAt_directory {location : Location}
    (leads : store.openFile path = .ok (.directory location)) :
    lengthAt store path = store.directoryLength location := by
  have unreadable : DeviceProbe.isReadable store (.directory location) 1 = false := by
    have refused : store.readAt (.directory location) 1 1 = .error .isADirectory :=
      FileStore.readAt_of_fault rfl (by decide)
    rw [DeviceProbe.isReadable, refused]
  have length : partLength store path = .ok (store.directoryLength location) := by
    rw [partLength, leads]
    exact DeviceProbe.fileSize_eq_length fun _ => unreadable
  rw [lengthAt, length]

def indexOver (store : FileStore) (image : RawImage) : SplitIndex where
  segments := Segment.layout 0
    ((parts store image.path).map fun path => (path, lengthAt store path))
  pool := .ofPaths (parts store image.path) image.config.maxOpenFiles

theorem sound_indexOver (store : FileStore) (image : RawImage) :
    ((indexOver store image).withHandles []).pool.Sound store :=
  HandlePool.sound_ofPaths store (parts store image.path) image.config.maxOpenFiles

theorem openImage_eq_ok (closed : image.index = none)
    (success : openImage store image = .ok opened) :
    opened = image.withHandles (indexOver store image) [] := by
  obtain ⟨lengths, told, rfl⟩ := exists_lengths_of_openImage closed success
  rw [lengths_of_partLengths told]
  rfl

theorem size_of_openImage (closed : image.index = none)
    (success : openImage store image = .ok opened) :
    opened.size = totalOf ((parts store image.path).map (lengthAt store)) := by
  rw [openImage_eq_ok closed success]
  refine (Segment.total_layout_zero _).trans ?_
  rw [Segment.span, List.map_map]
  rfl

theorem parts_eq (given : SplitName.ofPath? path = some name) :
    parts store path = path :: name.laterParts store := by
  rw [parts, given]

/-- The parts below the gap make up the size just when whatever is listed behind them has no
bytes. -/
theorem size_eq_iff (given : SplitName.ofPath? image.path = some name)
    (fits : name.next ≤ SplitName.numberLimit) (run : SplitName.ReadableUpTo store name gap)
    (closed : image.index = none) (success : openImage store image = .ok opened) :
    opened.size = totalOf ((image.path :: name.partsBelow gap).map (lengthAt store)) ↔
      ∀ part ∈ (name.laterParts store).drop (gap - name.next), lengthAt store part = 0 := by
  have whole : opened.size = totalOf ((image.path :: name.partsBelow gap).map (lengthAt store)) +
      totalOf (((name.laterParts store).drop (gap - name.next)).map (lengthAt store)) := by
    rw [size_of_openImage closed success, parts_eq given, SplitName.laterParts_split fits run,
      ← List.cons_append, List.map_append, totalOf_append, ← SplitName.laterParts_split fits run]
  rw [whole, Nat.add_eq_left, totalOf_eq_zero_iff, List.forall_mem_map]

/-! ## Reads -/

/-- Every read error is at a byte of a part that is no directory, as long as the parts are as they
were. -/
def MeetsNoDirectory (store : FileStore) (paths : List Path) (opened : RawImage) : Prop :=
  ∀ (history : List Request) (later : FileStore) (offset length : Nat) (cause : ImageError),
    (∀ request ∈ history, store.Keeps request.store paths) → store.Keeps later paths →
    (pread later (opened.afterReads history) offset length).result = .error cause →
    ∃ position fault, ∃ segment ∈ opened.segments, cause = .read position fault ∧
      segment.contains position ∧ store.Readable segment.path

theorem afterReads_withHandles (image : RawImage) {index : SplitIndex}
    {handles : Recency.Entries Handle} (sound : (index.withHandles handles).pool.Sound store)
    {history : List Request}
    (kept : ∀ request ∈ history, store.Keeps request.store index.pool.paths) :
    ∃ more, (image.withHandles index handles).afterReads history = image.withHandles index more ∧
      (index.withHandles more).pool.Sound store := by
  induction history generalizing handles with
  | nil => exact ⟨handles, rfl, sound⟩
  | cons request rest ih =>
    have keeps := kept request List.mem_cons_self
    have there : (index.withHandles handles).pool.Sound request.store := sound.keeps keeps
    obtain ⟨more, -, state, next⟩ :=
      image.pread_withHandles there request.offset request.length
    have back : (index.withHandles more).pool.Sound store := next.keeps keeps.symm
    obtain ⟨last, same, final⟩ :=
      ih back fun other listed => kept other (List.mem_cons_of_mem _ listed)
    exact ⟨last, by rw [afterReads, state, same], final⟩

end RawImage

namespace SplitIndex

theorem exists_segment_of_afresh_error {segments : List Segment} {paths : List Path}
    {offset length : Nat} {cause : ImageError}
    (failed : afresh store segments paths offset length = .error cause) :
    ∃ position fault, ∃ segment ∈ segments,
      cause = .read position fault ∧ segment.contains position := by
  -- On the length: the failure is at this step, or in the rest behind what was read.
  induction length using Nat.strongRecOn generalizing offset with
  | ind length ih =>
    rw [afresh] at failed
    by_cases none : length = 0
    · rw [if_pos none] at failed
      cases failed
    rw [if_neg none] at failed
    cases owner : Segment.owner? segments offset with
    | none =>
      rw [owner] at failed
      cases failed
    | some found =>
      obtain ⟨part, segment⟩ := found
      obtain ⟨there, inside⟩ := Segment.owner?_eq_some owner
      have here : ∀ fault, ∃ position other, ∃ segment ∈ segments,
          ImageError.read offset fault = .read position other ∧ segment.contains position :=
        fun fault => ⟨offset, fault, segment, List.mem_of_getElem? there, rfl,
          (Segment.contains_iff _ _).mpr inside⟩
      rw [owner] at failed
      dsimp only at failed
      split at failed
      · cases failed
        exact here _
      split at failed
      · cases failed
        exact here _
      rename_i bytes read
      by_cases last : bytes.size = 0
      · rw [if_pos last] at failed
        cases failed
      rw [if_neg last] at failed
      split at failed
      · rename_i rest
        cases failed
        exact ih (length - bytes.size) (by omega) rest
      · cases failed

theorem afresh_of_directory {segments : List Segment} {paths : List Path} {part offset : Nat}
    {directory : Path} {length : Nat}
    (owner : Segment.owner? segments offset = some (part, ⟨directory, offset, length⟩))
    (listed : paths[part]? = some directory) (leads : store.LeadsToDirectory directory) :
    afresh store segments paths offset 1 = .error (.read offset (.io .isADirectory)) := by
  obtain ⟨location, leads⟩ := leads
  have fetched : HandlePool.fetched store paths part = .ok (.directory location) := by
    rw [HandlePool.fetched, listed]
    exact leads
  have read : store.readAt (.directory location) (offset - offset)
      (min 1 (length - (offset - offset))) = .error .isADirectory := by
    refine FileStore.readAt_of_fault rfl ?_
    have near : 1 < FileStore.offsetLimit := by decide
    omega
  rw [afresh, if_neg Nat.one_ne_zero, owner]
  dsimp only
  rw [fetched]
  dsimp only
  rw [read]

end SplitIndex

namespace RawImage

variable {image opened : RawImage} {name : SplitName} {gap : Nat}

theorem exists_owner_of_later (given : SplitName.ofPath? image.path = some name) {part : Path}
    (listed : part ∈ name.laterParts store) (long : 0 < lengthAt store part) :
    ∃ before index, Segment.owner? (Segment.layout 0
        ((parts store image.path).map fun path => (path, lengthAt store path))) before =
          some (index, ⟨part, before, lengthAt store part⟩) ∧
      (parts store image.path)[index]? = some part := by
  obtain ⟨front, back, split⟩ := List.append_of_mem listed
  have all : parts store image.path = (image.path :: front) ++ part :: back := by
    rw [parts_eq given, split, List.cons_append]
  have found := Segment.owner?_layout_append
    ((image.path :: front).map fun path => (path, lengthAt store path))
    (back.map fun path => (path, lengthAt store path)) (part, lengthAt store part) long
  rw [List.length_map, List.length_cons] at found
  rw [all]
  refine ⟨Segment.span ((image.path :: front).map fun path => (path, lengthAt store path)),
    front.length + 1, ?_, by simp⟩
  rw [← found]
  simp only [List.map_append, List.map_cons]

/-- Reads meet no directory just when each one among the parts reports that it is empty. -/
theorem meetsNoDirectory_iff (given : SplitName.ofPath? image.path = some name)
    (fits : name.next ≤ SplitName.numberLimit) (closed : image.index = none)
    (success : openImage store image = .ok opened) (first : store.Readable image.path) :
    MeetsNoDirectory store (parts store image.path) opened ↔
      ∀ part ∈ name.laterParts store, ∀ location,
        store.openFile part = .ok (.directory location) → store.directoryLength location = 0 := by
  obtain rfl := openImage_eq_ok closed success
  constructor
  · intro meets part listed location leads
    have own := lengthAt_directory leads
    refine Nat.eq_zero_of_not_pos fun long => ?_
    obtain ⟨before, index, owner, there⟩ := exists_owner_of_later given listed (own ▸ long)
    -- The first byte that the directory is given is its own, and reading it tells what it met.
    have met := SplitIndex.afresh_of_directory owner there ⟨location, leads⟩
    obtain ⟨handles, result, -⟩ := image.pread_withHandles (sound_indexOver store image) before 1
    obtain ⟨position, fault, segment, there, same, contained, readable⟩ :=
      meets [] store before 1 _ (by simp) (.refl _ _) (result.trans met)
    cases same
    obtain ⟨index, there⟩ := List.getElem?_of_mem there
    have alone := owner.symm.trans (Segment.owner?_layout_of_contains there contained)
    cases alone
    exact FileStore.not_readable_of_directory ⟨location, leads⟩ readable
  · intro empty history later offset length cause kept keeps failed
    obtain ⟨handles, same, next⟩ := image.afterReads_withHandles (sound_indexOver store image) kept
    obtain ⟨-, result, -⟩ := image.pread_withHandles (next.keeps keeps) offset length
    rw [same, result] at failed
    obtain ⟨position, fault, segment, there, error, contained⟩ :=
      SplitIndex.exists_segment_of_afresh_error failed
    refine ⟨position, fault, segment, there, error, contained, ?_⟩
    obtain ⟨part, listed, named⟩ := List.mem_map.mp (Segment.mem_of_mem_layout there)
    obtain ⟨rfl, long⟩ := Prod.mk.inj named
    obtain ⟨lower, upper⟩ := (Segment.contains_iff _ _).mp contained
    rw [parts_eq given] at listed
    rcases List.mem_cons.mp listed with same | behind
    · rwa [same]
    rcases FileStore.opens_iff.mp (SplitName.opens_of_mem_laterParts fits behind) with
      readable | ⟨location, leads⟩
    · exact readable
    · have own := lengthAt_directory leads
      rw [empty _ behind location leads] at own
      rw [Segment.stop, ← long, own] at upper
      omega

/-- A directory that bears the next part's name ends the parts of an evidence file as a missing one
does. Those of a split image it ends just when it does not stand behind the last part that can be
read: there it is a part itself, and what it and the parts behind it report adds to the size. Reads
fail at the bytes that it reports. -/
theorem directory_ends_parts_iff (store : FileStore) :
    (∀ (path : Path) (name : SplitName), SplitName.ofPath? path = some name →
      ∃ gap, SplitName.ReadableUpTo store name gap ∧
        ((∀ part ∈ name.laterParts store, store.Readable part) ↔
          ¬SplitName.Blocked store name gap) ∧
        (name.laterParts store = name.partsBelow gap ↔ ¬SplitName.Blocked store name gap) ∧
        ∀ image opened : RawImage, image.path = path → image.index = none →
          openImage store image = .ok opened →
          (opened.size = totalOf ((path :: name.partsBelow gap).map (lengthAt store)) ↔
            ∀ part ∈ (name.laterParts store).drop (gap - name.next), lengthAt store part = 0) ∧
          (store.Readable path →
            (MeetsNoDirectory store (parts store path) opened ↔
              ∀ part ∈ name.laterParts store, ∀ location,
                store.openFile part = .ok (.directory location) →
                  store.directoryLength location = 0))) ∧
      ∀ first : Path, ∃ stop,
        Run (EvidenceParts.Follows store first) 2 (2 + EvidenceParts.countLimit) stop ∧
        stop < 2 + EvidenceParts.countLimit ∧
        EvidenceParts.discover store first =
          first :: (List.range' 2 (stop - 2)).map (EvidenceParts.candidate first) ∧
        ∀ part ∈ (EvidenceParts.discover store first).tail, store.Readable part := by
  constructor
  · intro path name given
    obtain ⟨ending, made⟩ := SplitName.exists_madeFrom given
    have fits := Nat.le_of_lt made.next_lt
    obtain ⟨gap, run⟩ := Run.exists_stop (fun number => store.Readable (name.pathOf number))
      name.next (SplitName.numberLimit - name.next)
    rw [Nat.add_sub_cancel' fits] at run
    refine ⟨gap, run, SplitName.parts_readable_iff fits run,
      SplitName.laterParts_eq_iff fits run, ?_⟩
    rintro image opened rfl closed success
    exact ⟨size_eq_iff given fits run closed success,
      meetsNoDirectory_iff given fits closed success⟩
  · intro first
    obtain ⟨stop, run, before, found⟩ := EvidenceParts.exists_discover_eq store first
    refine ⟨stop, run, before, found, fun part listed => ?_⟩
    rw [found, List.tail_cons] at listed
    obtain ⟨number, there, rfl⟩ := List.mem_map.mp listed
    obtain ⟨low, high⟩ := List.mem_range'_1.mp there
    exact FileStore.readable_of_isFile (run.each number low (by omega)).2

theorem parts_of_threeParts :
    SplitName.ofPath? oneHandleImage.path = some ⟨"disk.".toList, [], 1⟩ ∧
      oneHandleImage.index = none ∧ threeParts.Readable oneHandleImage.path ∧
      (∀ part ∈ SplitName.laterParts threeParts ⟨"disk.".toList, [], 1⟩,
        threeParts.Readable part) ∧
      ∃ opened, openImage threeParts oneHandleImage = .ok opened ∧
        MeetsNoDirectory threeParts (parts threeParts oneHandleImage.path) opened := by
  have given : SplitName.ofPath? oneHandleImage.path = some ⟨"disk.".toList, [], 1⟩ := by
    decide +kernel
  have readable : ∀ path ∈ parts threeParts ⟨"disk.000"⟩, threeParts.Readable path := by
    intro path listed
    obtain ⟨id, success, -⟩ := threeParts_files path listed
    exact FileStore.readable_iff.mpr ⟨.file id, success, by simp⟩
  obtain ⟨splits, -⟩ := directory_ends_parts_iff threeParts
  obtain ⟨gap, -, -, -, images⟩ := splits _ _ given
  have behind : ∀ part ∈ SplitName.laterParts threeParts ⟨"disk.".toList, [], 1⟩,
      threeParts.Readable part :=
    fun part listed => readable part (List.mem_cons_of_mem _ listed)
  have first := readable ⟨"disk.000"⟩ List.mem_cons_self
  have success : openImage threeParts oneHandleImage =
      .ok { oneHandleImage with index := some threePartsIndex } := by rfl
  obtain ⟨-, meets_iff⟩ := images oneHandleImage _ rfl rfl success
  refine ⟨given, rfl, first, behind, _, success, (meets_iff first).mpr ?_⟩
  intro part listed location leads
  exact absurd (behind part listed) (FileStore.not_readable_of_directory ⟨location, leads⟩)

def interrupted : FileStore where
  entries := [
    (["work"], .directory),
    (["disk.001", "work"], .regular 0),
    (["disk.002", "work"], .directory),
    (["disk.003", "work"], .regular 1)]
  contents := #[ofBytes [1, 2, 3], ofBytes [4, 5]]
  workingDirectory := ["work"]
  directoryLength := fun _ => 4096

def interruptedImage : RawImage := { path := ⟨"disk.001"⟩, config := { maxOpenFiles := 1 } }

def interruptedIndex : SplitIndex where
  segments := [⟨⟨"disk.001"⟩, 0, 3⟩, ⟨⟨"disk.002"⟩, 3, 4096⟩, ⟨⟨"disk.003"⟩, 4099, 2⟩]
  pool := .ofPaths [⟨"disk.001"⟩, ⟨"disk.002"⟩, ⟨"disk.003"⟩] 1

/-- The directory is listed as a part, with its own length, and reading it fails. -/
theorem parts_of_interrupted :
    SplitName.laterParts interrupted ⟨"disk.".toList, [], 2⟩ = [⟨"disk.002"⟩, ⟨"disk.003"⟩] ∧
      ¬interrupted.Readable ⟨"disk.002"⟩ ∧
      ∃ opened, openImage interrupted interruptedImage = .ok opened ∧ opened.size = 4101 ∧
        (pread interrupted opened 3 1).result = .error (.read 3 (.io .isADirectory)) := by
  refine ⟨by rfl, FileStore.not_readable_of_directory ⟨_, by rfl⟩,
    { interruptedImage with index := some interruptedIndex }, by rfl, by rfl, ?_⟩
  decide +kernel

end RawImage

end EvidencePages

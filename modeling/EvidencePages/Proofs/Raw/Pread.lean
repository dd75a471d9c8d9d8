import EvidencePages.Proofs.Raw.SplitRead

/-!
# Positioned reads of a raw image

Opening a raw image over regular files succeeds if their bytes are a number of
64 bits in all, and from then on every positioned read gives the bytes of the
parts end to end, after whatever was read before and however the host divides
its reads.
-/

set_option autoImplicit false

namespace EvidencePages

namespace DeviceProbe

theorem search_of_unreadable {readable : Nat → Bool} (h : readable 1 = false) :
    (search readable).1 = some 0 := by
  have least : leastUnreadable readable exponentLimit 0 = (some 0, [1]) := by
    rw [exponentLimit, leastUnreadable]
    simp [h]
  simp [search, least, settle, h]

theorem isReadable_past_end {store : FileStore} {id offset : Nat}
    (past : (store.content id).size ≤ offset) : isReadable store (.file id) offset = false := by
  rw [isReadable]
  cases read : store.readAt (.file id) offset 1 with
  | error cause => rfl
  | ok bytes =>
    obtain ⟨-, -, rfl⟩ := FileStore.readAt_eq_ok_iff.mp read
    have none : (store.portion (.file id) offset 1).size = 0 := by
      rw [FileStore.portion, size_slice]
      omega
    simp [none]

theorem fileSize_eq_length {store : FileStore} {handle : Handle}
    (unreadable : store.length handle = 0 → isReadable store handle 1 = false) :
    fileSize store handle = .ok (store.length handle) := by
  rw [fileSize]
  by_cases empty : store.length handle = 0
  · simp [empty, DeviceProbe.size, search_of_unreadable (unreadable empty)]
  · simp [empty, DeviceProbe.size]

theorem fileSize_file (store : FileStore) (id : Nat) :
    fileSize store (.file id) = .ok (store.content id).size := by
  refine fileSize_eq_length fun empty => isReadable_past_end ?_
  rw [show (store.content id).size = 0 from empty]
  exact Nat.zero_le 1

end DeviceProbe

namespace RawImage

theorem partLength_of_hasFile {store : FileStore} {path : Path} (has : store.HasFile path) :
    partLength store path = .ok (store.bytesAt path).size := by
  obtain ⟨id, opened, -, content, -⟩ := has.opened
  rw [partLength, opened, ← content]
  exact DeviceProbe.fileSize_file store id

/-- The length that a part is given, if it is given one. -/
def lengthAt (store : FileStore) (path : Path) : Nat :=
  match partLength store path with
  | .ok length => length
  | .error _ => 0

theorem lengths_of_partLengths {store : FileStore} {paths : List Path}
    {lengths : List (Path × Nat)} {total : Nat}
    (success : partLengths store total paths = .ok lengths) :
    lengths = paths.map fun path => (path, lengthAt store path) := by
  induction paths generalizing lengths total with
  | nil =>
    cases success
    rfl
  | cons path rest ih =>
    rw [partLengths] at success
    split at success
    · cases success
    rename_i length own
    split at success
    · cases success
    split at success
    · cases success
    rename_i more behind
    cases success
    rw [List.map_cons, ← ih behind, lengthAt, own]

theorem span_lt_of_partLengths {store : FileStore} {paths : List Path}
    {lengths : List (Path × Nat)} {total : Nat}
    (success : partLengths store total paths = .ok lengths) (before : total < UInt64.size) :
    total + Segment.span lengths < UInt64.size := by
  induction paths generalizing lengths total with
  | nil =>
    cases success
    exact before
  | cons path rest ih =>
    rw [partLengths] at success
    split at success
    · cases success
    split at success
    · cases success
    rename_i length own counted
    split at success
    · cases success
    rename_i more behind
    cases success
    rw [Segment.span_cons, ← Nat.add_assoc]
    exact ih behind (Nat.lt_of_not_le counted)

theorem partLengths_of_counted {store : FileStore} {lengths : List (Path × Nat)} {total : Nat}
    (each : ∀ part ∈ lengths, partLength store part.1 = .ok part.2)
    (counted : total + Segment.span lengths < UInt64.size) :
    partLengths store total (lengths.map (·.1)) = .ok lengths := by
  induction lengths generalizing total with
  | nil => rfl
  | cons part rest ih =>
    rw [Segment.span_cons] at counted
    have later : partLengths store (total + part.2) (rest.map (·.1)) = .ok rest :=
      ih (fun other listed => each other (List.mem_cons_of_mem _ listed)) (by omega)
    have before : ¬UInt64.size ≤ total + part.2 := by omega
    rw [List.map_cons, partLengths, each part (List.mem_cons_self ..)]
    simp only [before, if_false, later]

theorem partLengths_eq {store : FileStore} {paths : List Path} {total : Nat}
    (files : ∀ path ∈ paths, store.HasFile path)
    (counted : total + (store.concatenation paths).size < UInt64.size) :
    partLengths store total paths = .ok (SplitIndex.sizedParts store paths) := by
  have each : ∀ part ∈ SplitIndex.sizedParts store paths,
      partLength store part.1 = .ok part.2 := by
    intro part listed
    obtain ⟨path, there, rfl⟩ := List.mem_map.mp listed
    exact partLength_of_hasFile (files path there)
  have named : (SplitIndex.sizedParts store paths).map (·.1) = paths := by
    rw [SplitIndex.sizedParts, List.map_map]
    exact List.map_id paths
  rw [← SplitIndex.span_sizedParts] at counted
  rw [← named]
  simpa only [named] using partLengths_of_counted each counted

def Over (store : FileStore) (paths : List Path) (image : RawImage) : Prop :=
  ∃ index, image.index = some index ∧ SplitIndex.Over store paths index

theorem openImage_eq {store : FileStore} {image : RawImage} (closed : image.index = none)
    (valid : image.config.validate = .ok ())
    (files : ∀ path ∈ parts store image.path, store.HasFile path)
    (counted : (store.concatenation (parts store image.path)).size < UInt64.size) :
    openImage store image = .ok { image with
      index := some {
        segments := Segment.layout 0 (SplitIndex.sizedParts store (parts store image.path))
        pool := .ofPaths (parts store image.path) image.config.maxOpenFiles } } := by
  rw [openImage, closed, valid]
  have sized : partLengths store 0 (parts store image.path) =
      .ok (SplitIndex.sizedParts store (parts store image.path)) :=
    partLengths_eq files (by rwa [Nat.zero_add])
  simp only [sized]

theorem exists_lengths_of_openImage {store : FileStore} {image opened : RawImage}
    (closed : image.index = none) (success : openImage store image = .ok opened) :
    ∃ lengths, partLengths store 0 (parts store image.path) = .ok lengths ∧
      opened = { image with
        index := some {
          segments := Segment.layout 0 lengths
          pool := .ofPaths (parts store image.path) image.config.maxOpenFiles } } := by
  rw [openImage, closed] at success
  dsimp only at success
  split at success
  · cases success
  split at success
  · cases success
  rename_i lengths told
  exact ⟨lengths, told, (Except.ok.inj success).symm⟩

theorem size_lt_of_openImage {store : FileStore} {image opened : RawImage}
    (closed : image.index = none) (success : openImage store image = .ok opened) :
    opened.size < UInt64.size := by
  obtain ⟨lengths, told, rfl⟩ := exists_lengths_of_openImage closed success
  have counted := span_lt_of_partLengths told (by decide)
  rwa [Nat.zero_add, ← Segment.total_layout_zero] at counted

theorem counted_of_openImage {store : FileStore} {image opened : RawImage}
    (closed : image.index = none)
    (files : ∀ path ∈ parts store image.path, store.HasFile path)
    (success : openImage store image = .ok opened) :
    (store.concatenation (parts store image.path)).size < UInt64.size := by
  have counted := size_lt_of_openImage closed success
  obtain ⟨lengths, told, rfl⟩ := exists_lengths_of_openImage closed success
  have same : lengths = SplitIndex.sizedParts store (parts store image.path) := by
    rw [lengths_of_partLengths told, SplitIndex.sizedParts]
    refine List.map_congr_left fun path listed => ?_
    rw [lengthAt, partLength_of_hasFile (files path listed)]
  rw [← SplitIndex.span_sizedParts, ← same, ← Segment.total_layout_zero]
  exact counted

theorem openImage_over {store : FileStore} {image : RawImage} (closed : image.index = none)
    (valid : image.config.validate = .ok ())
    (files : ∀ path ∈ parts store image.path, store.HasFile path)
    (counted : (store.concatenation (parts store image.path)).size < UInt64.size) :
    ∃ index, openImage store image = .ok { image with index := some index } ∧
      SplitIndex.Over store (parts store image.path) index :=
  ⟨_, openImage_eq closed valid files counted, rfl, rfl, HandlePool.sound_ofPaths store _ _⟩

theorem pread_eq {store : FileStore} {paths : List Path} {image : RawImage}
    (covered : Over store paths image) (files : ∀ path ∈ paths, store.HasFile path)
    (offset length : Nat) :
    (pread store image offset length).result =
        .ok (slice (store.concatenation paths) offset length) ∧
      (pread store image offset length).warnings = [] ∧
      Over store paths (pread store image offset length).state := by
  obtain ⟨index, opened, covered⟩ := covered
  obtain ⟨last, read, kept⟩ := SplitIndex.read_eq covered files offset length
  rw [pread, opened]
  simp only [read, Outcome.reporting]
  exact ⟨trivial, trivial, last, rfl, kept⟩

structure Request where
  store : FileStore
  offset : Nat
  length : Nat

def afterReads (image : RawImage) : List Request → RawImage
  | [] => image
  | request :: rest =>
    (pread request.store image request.offset request.length).state.afterReads rest

theorem afterReads_over {store : FileStore} {paths : List Path} {image : RawImage}
    (covered : Over store paths image) (files : ∀ path ∈ paths, store.HasFile path)
    {history : List Request} (kept : ∀ request ∈ history, store.Keeps request.store paths) :
    Over store paths (image.afterReads history) := by
  induction history generalizing image with
  | nil => exact covered
  | cons request rest ih =>
    have keeps := kept request (List.mem_cons_self ..)
    obtain ⟨index, opened, covered⟩ := covered
    have there : ∀ path ∈ paths, request.store.HasFile path :=
      fun path h => keeps.hasFile h (files path h)
    obtain ⟨-, -, next, opened, covered⟩ :=
      pread_eq ⟨index, opened, covered.keeps keeps⟩ there request.offset request.length
    exact ih ⟨next, opened, covered.keeps keeps.symm⟩
      fun other h => kept other (List.mem_cons_of_mem _ h)

/-- Over regular files whose bytes can be counted an image opens, and every later read gives exactly
the bytes of the parts end to end that lie in its range: after any reads before it, with stores that
divide their reads in any way, and with as few handles as may be. -/
theorem pread_eq_concatenation {store : FileStore} {image : RawImage} (closed : image.index = none)
    (valid : image.config.validate = .ok ())
    (files : ∀ path ∈ parts store image.path, store.HasFile path)
    (counted : (store.concatenation (parts store image.path)).size < UInt64.size) :
    ∃ opened, openImage store image = .ok opened ∧
      ∀ (history : List Request) (later : FileStore) (offset length : Nat),
        (∀ request ∈ history, store.Keeps request.store (parts store image.path)) →
        store.Keeps later (parts store image.path) →
        ∃ bytes, (pread later (opened.afterReads history) offset length).result = .ok bytes ∧
          bytes.size = min length ((store.concatenation (parts store image.path)).size - offset) ∧
          bytes = slice (store.concatenation (parts store image.path)) offset bytes.size := by
  obtain ⟨index, success, covered⟩ := openImage_over closed valid files counted
  refine ⟨_, success, ?_⟩
  intro history later offset length kept keeps
  have opened : Over store (parts store image.path) { image with index := some index } :=
    ⟨index, rfl, covered⟩
  obtain ⟨next, there, indexed⟩ := afterReads_over opened files kept
  obtain ⟨result, -, -⟩ := pread_eq ⟨next, there, indexed.keeps keeps⟩
    (fun path h => keeps.hasFile h (files path h)) offset length
  rw [keeps.concatenation_eq] at result
  refine ⟨_, result, size_slice _ _ _, ?_⟩
  rw [size_slice, slice_min]

/-- Three parts, the second of which is empty. -/
def threeParts : FileStore where
  entries := [
    (["work"], .directory),
    (["disk.000", "work"], .regular 0),
    (["disk.001", "work"], .regular 1),
    (["disk.002", "work"], .regular 2)]
  contents := #[ofBytes [1, 2, 3], .empty, ofBytes [4, 5]]
  workingDirectory := ["work"]

def grudgingParts : FileStore := { threeParts with grant := fun _ _ _ => 1 }

def oneHandleImage : RawImage := { path := ⟨"disk.000"⟩, config := { maxOpenFiles := 1 } }

def threePartsIndex : SplitIndex where
  segments := [⟨⟨"disk.000"⟩, 0, 3⟩, ⟨⟨"disk.001"⟩, 3, 0⟩, ⟨⟨"disk.002"⟩, 3, 2⟩]
  pool := .ofPaths [⟨"disk.000"⟩, ⟨"disk.001"⟩, ⟨"disk.002"⟩] 1

theorem threeParts_each {P : Path → Prop} (first : P ⟨"disk.000"⟩) (second : P ⟨"disk.001"⟩)
    (third : P ⟨"disk.002"⟩) : ∀ path ∈ parts threeParts ⟨"disk.000"⟩, P path := by
  intro path h
  have listed : parts threeParts ⟨"disk.000"⟩ =
      [⟨"disk.000"⟩, ⟨"disk.001"⟩, ⟨"disk.002"⟩] := by rfl
  rw [listed] at h
  simp only [List.mem_cons, List.not_mem_nil, or_false] at h
  rcases h with rfl | rfl | rfl
  · exact first
  · exact second
  · exact third

theorem threeParts_files : ∀ path ∈ parts threeParts ⟨"disk.000"⟩, threeParts.HasFile path :=
  threeParts_each ⟨0, rfl, rfl, by decide⟩ ⟨1, rfl, rfl, by decide⟩ ⟨2, rfl, rfl, by decide⟩

theorem threeParts_concatenation :
    threeParts.concatenation (parts threeParts ⟨"disk.000"⟩) = ofBytes [1, 2, 3, 4, 5] := by
  rfl

theorem threeParts_counted :
    (threeParts.concatenation (parts threeParts oneHandleImage.path)).size < UInt64.size := by
  rw [show oneHandleImage.path = ⟨"disk.000"⟩ from rfl, threeParts_concatenation]
  decide

/-- A range over all three parts, read a byte at a time through one handle, after two other
reads. -/
theorem pread_threeParts :
    oneHandleImage.index = none ∧ oneHandleImage.config.validate = .ok () ∧
      (∀ path ∈ parts threeParts oneHandleImage.path, threeParts.HasFile path) ∧
      (threeParts.concatenation (parts threeParts oneHandleImage.path)).size < UInt64.size ∧
      ∃ opened, openImage threeParts oneHandleImage = .ok opened ∧
        (pread grudgingParts
          (opened.afterReads [⟨threeParts, 0, 4⟩, ⟨grudgingParts, 1, 9⟩]) 2 7).result =
          .ok (ofBytes [3, 4, 5]) := by
  have keeps : threeParts.Keeps grudgingParts (parts threeParts oneHandleImage.path) :=
    threeParts_each ⟨rfl, fun _ _ => ⟨rfl, rfl, rfl⟩⟩ ⟨rfl, fun _ _ => ⟨rfl, rfl, rfl⟩⟩
      ⟨rfl, fun _ _ => ⟨rfl, rfl, rfl⟩⟩
  have closed : oneHandleImage.index = none := rfl
  obtain ⟨opened, success, reads⟩ := pread_eq_concatenation closed rfl threeParts_files
    threeParts_counted
  refine ⟨rfl, rfl, threeParts_files, threeParts_counted, opened, success, ?_⟩
  have kept : ∀ request ∈ [(⟨threeParts, 0, 4⟩ : Request), ⟨grudgingParts, 1, 9⟩],
      threeParts.Keeps request.store (parts threeParts oneHandleImage.path) := by
    intro request h
    simp only [List.mem_cons, List.not_mem_nil, or_false] at h
    rcases h with rfl | rfl
    · exact FileStore.Keeps.refl _ _
    · exact keeps
  obtain ⟨bytes, result, size, content⟩ := reads _ grudgingParts 2 7 kept keeps
  rw [show oneHandleImage.path = ⟨"disk.000"⟩ from rfl, threeParts_concatenation] at size content
  rw [result, content, size]
  rfl

end RawImage

end EvidencePages

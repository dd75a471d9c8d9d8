import EvidencePages.Proofs.Ewf.Caching
import EvidencePages.Proofs.Ewf.CutSegment

/-!
# Opening cut segment files

Segment files are opened in the order of a list of paths. Each adds to the
chunk table what its own table still says, so that a chunk has the number of
entries before it, whatever its number was among the acquired chunks.
-/

set_option autoImplicit false

namespace EvidencePages.Ewf

/-- A segment of a set and how much of its file there is. -/
structure Cut where
  segment : Nat
  length : Nat

namespace Acquisition

variable {a : Acquisition}

variable (a) in
def cutFile (cut : Cut) : ByteArray := slice (a.segmentFile cut.segment) 0 cut.length

variable (a) in
/-- The files at `paths` are these segments, each as far as it is there. -/
structure Supplied (store : FileStore) (paths : List Path) (cuts : List Cut) : Prop where
  files : ∀ path ∈ paths, store.HasFile path
  bytes : paths.map store.bytesAt = cuts.map a.cutFile
  segments : ∀ cut ∈ cuts, cut.segment < a.segmentCount ∧
    cut.length ≤ (a.segmentFile cut.segment).size

theorem Supplied.fetched {store : FileStore} {paths : List Path} {cuts : List Cut}
    (supplied : a.Supplied store paths cuts) (fits : a.Fits) {part : Nat} {cut : Cut}
    (found : cuts[part]? = some cut) :
    ∃ id, HandlePool.fetched store paths part = .ok (.file id) ∧
      Keeping store id (a.segmentFile cut.segment) cut.length := by
  obtain ⟨inside, bound⟩ := supplied.segments cut (List.mem_of_getElem? found)
  have bytes : (paths.map store.bytesAt)[part]? = some (a.cutFile cut) := by
    rw [supplied.bytes, List.getElem?_map, found]
    rfl
  rw [List.getElem?_map, Option.map_eq_some_iff] at bytes
  obtain ⟨path, there, content⟩ := bytes
  obtain ⟨id, opened, granted, same, -⟩ := (supplied.files path (List.mem_of_getElem? there)).opened
  refine ⟨id, ?_, granted, same.trans content, bound, fits.files _ inside⟩
  rw [HandlePool.fetched, there]
  exact opened

variable (a) in
def keptOf (cut : Cut) : Nat := a.kept cut.segment cut.length

variable (a) in
/-- What the tables of these segments say, one after another from file `part` on. -/
def tableFrom : Nat → List Cut → List ChunkLocation
  | _, [] => []
  | part, cut :: rest =>
    a.located part cut.segment (a.keptOf cut) ++ tableFrom (part + 1) rest

variable (a) in
def toldFrom : List Cut → Option Volume
  | [] => none
  | cut :: rest => (a.told cut.segment cut.length).or (toldFrom rest)

variable (a) in
/-- What adding the segments `rest` from file `part` on comes to. -/
def Added (store : FileStore) (part : Nat) (rest : List Cut) (opening : Opening) :
    Except ContainerError Opening → Prop
  | .ok result => result.pool.paths = opening.pool.paths ∧ result.pool.Sound store ∧
      result.segmentSizes.toList = opening.segmentSizes.toList ++ rest.map (·.length) ∧
      result.volume = opening.volume.or (a.toldFrom rest) ∧
      result.chunks.toList = opening.chunks.toList ++ a.tableFrom part rest
  | .error _ => ∃ cut ∈ rest, a.Refused cut.segment cut.length

theorem addSegment_cut (fits : a.Fits)
    (inflates : ∀ data, Zlib.decode? (a.deflate data) = some data) {store : FileStore}
    {opening : Opening} {cuts : List Cut} (sound : opening.pool.Sound store)
    (supplied : a.Supplied store opening.pool.paths cuts) {part : Nat} {cut : Cut}
    (found : cuts[part]? = some cut) :
    a.Added store part [cut] opening (addSegment store part opening) := by
  obtain ⟨handles, fetch, kept⟩ := HandlePool.fetch_eq sound part
  obtain ⟨id, fetched, keeping⟩ := supplied.fetched fits found
  rw [addSegment, fetch, fetched]
  dsimp only
  rw [checkFileHeader_cut keeping]
  by_cases headless : cut.length < fileHeaderSize
  · rw [if_pos headless]
    exact ⟨cut, List.mem_singleton_self _, .inl headless⟩
  rw [if_neg headless]
  dsimp only
  have walked := walkSections_cut fits inflates keeping part
  cases walk : walkSections store (.file id) part with
  | error cause =>
    rw [walk] at walked
    exact ⟨cut, List.mem_singleton_self _, walked⟩
  | ok gathered =>
    rw [walk] at walked
    obtain ⟨volume, chunks⟩ := walked
    refine ⟨rfl, kept, ?_, ?_, ?_⟩
    · simp [keeping.length_eq]
    · simp [volume, toldFrom]
    · simp [chunks, tableFrom, keptOf]

theorem addSegments_cut (fits : a.Fits)
    (inflates : ∀ data, Zlib.decode? (a.deflate data) = some data) {store : FileStore}
    {opening : Opening} {cuts : List Cut} (sound : opening.pool.Sound store)
    (supplied : a.Supplied store opening.pool.paths cuts) {part : Nat} {rest : List Cut}
    (left : cuts.drop part = rest) :
    a.Added store part rest opening (addSegments store rest.length part opening) := by
  -- On the segments that are left; the first that is refused ends it.
  induction rest generalizing part opening with
  | nil => exact ⟨rfl, sound, by simp, by simp [toldFrom], by simp [tableFrom]⟩
  | cons cut rest ih =>
    have found : cuts[part]? = some cut := by
      have first : (cuts.drop part)[0]? = cuts[part + 0]? := List.getElem?_drop
      rw [left] at first
      exact first.symm
    have behind : cuts.drop (part + 1) = rest := by
      rw [← List.drop_drop, left]
      rfl
    have step := addSegment_cut fits inflates sound supplied found
    rw [List.length_cons, addSegments]
    cases added : addSegment store part opening with
    | error cause =>
      rw [added] at step
      obtain ⟨other, same, refused⟩ := step
      obtain rfl : other = cut := List.mem_singleton.mp same
      exact ⟨other, List.mem_cons_self, refused⟩
    | ok next =>
      rw [added] at step
      obtain ⟨paths, kept, sizes, volume, chunks⟩ := step
      have later := ih kept (paths ▸ supplied) behind
      dsimp only
      cases result : addSegments store rest.length (part + 1) next with
      | error cause =>
        rw [result] at later
        obtain ⟨other, there, refused⟩ := later
        exact ⟨other, List.mem_cons_of_mem _ there, refused⟩
      | ok final =>
        rw [result] at later
        obtain ⟨paths', kept', sizes', volume', chunks'⟩ := later
        refine ⟨paths'.trans paths, kept', ?_, ?_, ?_⟩
        · simp [sizes', sizes]
        · simp [volume', volume, toldFrom, Option.or_assoc]
        · simp [chunks', chunks, tableFrom]

variable (a) in
structure Opened (store : FileStore) (paths : List Path) (cuts : List Cut) (reader : Reader) :
    Prop where
  sound : reader.Sound store
  paths : reader.pool.paths = paths
  sizes : reader.segmentSizes.toList = cuts.map (·.length)
  volume : reader.volume = a.volume
  chunks : reader.chunks.toList = (a.tableFrom 0 cuts).take a.chunkCount

theorem toldFrom_eq (cuts : List Cut) :
    a.toldFrom cuts = none ∨ a.toldFrom cuts = some a.volume := by
  induction cuts with
  | nil => exact .inl rfl
  | cons cut rest ih =>
    rw [toldFrom, told]
    split
    · exact .inr rfl
    · exact ih

theorem toNat_chunkCount (fits : a.Fits) : a.volume.chunkCount.toNat = a.chunkCount := by
  have small := fits.chunks
  rw [Nat.one_shiftLeft] at small
  rw [volume, UInt32.toNat_ofNat', Nat.mod_eq_of_lt small]

theorem ofOpening_volume (fits : a.Fits) {store : FileStore} {opening : Opening}
    (told : opening.volume = some a.volume) (sound : opening.pool.Sound store) :
    ∃ reader, Reader.ofOpening opening = .ok reader ∧ reader.Sound store ∧
      reader.pool = opening.pool ∧ reader.segmentSizes = opening.segmentSizes ∧
      reader.volume = a.volume ∧
      reader.chunks.toList = opening.chunks.toList.take a.chunkCount := by
  have positive : a.volume.chunkSize ≠ 0 := by
    intro zero
    have size := toNat_volume_chunkSize (a := a)
    rw [zero] at size
    exact Nat.ne_of_lt chunkSize_pos size
  refine ⟨_, Reader.ofOpening_eq_ok_iff.mpr ⟨a.volume, told, positive, rfl⟩, ⟨sound, ?_⟩, rfl, rfl,
    rfl, ?_⟩
  · intro index data found
    simp [Recency.find?] at found
  · simp [toNat_chunkCount fits]

theorem Supplied.length_eq {store : FileStore} {paths : List Path} {cuts : List Cut}
    (supplied : a.Supplied store paths cuts) : paths.length = cuts.length := by
  have lengths := congrArg List.length supplied.bytes
  rwa [List.length_map, List.length_map] at lengths

theorem added_paths (fits : a.Fits)
    (inflates : ∀ data, Zlib.decode? (a.deflate data) = some data) {store : FileStore}
    {paths : List Path} {cuts : List Cut} (supplied : a.Supplied store paths cuts)
    (maxOpen : Nat) :
    a.Added store 0 cuts { pool := .ofPaths paths maxOpen }
      (addSegments store paths.length 0 { pool := .ofPaths paths maxOpen }) := by
  rw [supplied.length_eq]
  exact addSegments_cut fits inflates (HandlePool.sound_ofPaths store paths maxOpen) supplied
    List.drop_zero

theorem opened_of_openParts (fits : a.Fits)
    (inflates : ∀ data, Zlib.decode? (a.deflate data) = some data) {store : FileStore}
    {paths : List Path} {cuts : List Cut} (supplied : a.Supplied store paths cuts)
    {maxOpen : Nat} {reader : Reader}
    (success : Reader.openParts store paths maxOpen = .ok reader) :
    a.Opened store paths cuts reader := by
  have added := added_paths fits inflates supplied maxOpen
  obtain ⟨-, opening, result, opens⟩ := Reader.openParts_eq_ok_iff.mp success
  rw [result] at added
  obtain ⟨same, sound, sizes, volume, chunks⟩ := added
  have told : opening.volume = a.toldFrom cuts := volume
  rcases toldFrom_eq (a := a) cuts with untold | known
  · obtain ⟨volume, other, -⟩ := Reader.ofOpening_eq_ok_iff.mp opens
    rw [told, untold] at other
    cases other
  · obtain ⟨made, opened, kept, pool, lengths, geometry, table⟩ :=
      ofOpening_volume fits (told.trans known) sound
    obtain rfl : made = reader := Except.ok.inj (opened.symm.trans opens)
    refine ⟨kept, ?_, ?_, geometry, ?_⟩
    · rw [pool]
      exact same
    · rw [lengths]
      exact sizes
    · rw [table, chunks]
      rfl

theorem volumeStop_le_sectorsStop : a.volumeStop ≤ a.sectorsStop 0 := by
  rw [sectorsStop_eq]
  exact Nat.le_trans volumeStop_le_sectorsOffset (Nat.le_add_right _ _)

theorem volumeStop_le : a.volumeStop ≤ (a.segmentFile 0).size := by
  have size := sectorsStop_le (a := a) 0
  exact Nat.le_trans volumeStop_le_sectorsStop (by omega)

theorem not_refused_size (segment : Nat) : ¬ a.Refused segment (a.segmentFile segment).size := by
  have size := size_segmentFile (a := a) segment
  have header := (stands_contents (a := a) segment).size_eq
  intro refused
  rcases refused with short | ⟨first, -, short⟩ | ⟨-, short⟩
  · omega
  · rw [first] at short
    exact Nat.not_lt_of_le volumeStop_le short
  · omega

theorem toldFrom_of_first {cuts : List Cut} {cut : Cut} (there : cut ∈ cuts)
    (first : cut.segment = 0) (reach : a.volumeStop ≤ cut.length) :
    a.toldFrom cuts = some a.volume := by
  have told : a.told cut.segment cut.length = some a.volume := if_pos ⟨first, reach⟩
  induction cuts with
  | nil => cases there
  | cons other rest ih =>
    rcases List.mem_cons.mp there with rfl | later
    · rw [toldFrom, told]
      rfl
    · rw [toldFrom, ih later, Acquisition.told]
      split <;> rfl

theorem exists_openParts (fits : a.Fits)
    (inflates : ∀ data, Zlib.decode? (a.deflate data) = some data) {store : FileStore}
    {paths : List Path} {cuts : List Cut} (supplied : a.Supplied store paths cuts)
    (accepted : ∀ cut ∈ cuts, ¬ a.Refused cut.segment cut.length)
    (first : ∃ cut ∈ cuts, cut.segment = 0 ∧ a.volumeStop ≤ cut.length) (maxOpen : Nat) :
    ∃ reader, Reader.openParts store paths maxOpen = .ok reader := by
  have added := added_paths fits inflates supplied maxOpen
  obtain ⟨cut, there, zero, reach⟩ := first
  have supply : paths ≠ [] := by
    intro none
    have length := supplied.length_eq
    rw [none, List.length_nil, eq_comm, List.length_eq_zero_iff] at length
    rw [length] at there
    cases there
  cases result : addSegments store paths.length 0 { pool := .ofPaths paths maxOpen } with
  | error cause =>
    rw [result] at added
    obtain ⟨other, listed, refused⟩ := added
    exact absurd refused (accepted other listed)
  | ok opening =>
    rw [result] at added
    obtain ⟨-, sound, -, volume, -⟩ := added
    have told : opening.volume = .some a.volume :=
      volume.trans (toldFrom_of_first there zero reach)
    obtain ⟨reader, opened, -⟩ := ofOpening_volume fits told sound
    exact ⟨reader, Reader.openParts_eq_ok_iff.mpr ⟨supply, opening, result, opened⟩⟩

end Acquisition

end EvidencePages.Ewf

import EvidencePages.Proofs.Ewf.LeavingChains
import EvidencePages.Proofs.Ewf.Uncached

/-!
# What an opened set is made of

Segment files may hold anything. If a set of them opens, each one is a regular
file whose visited sections have no fault, and the reader holds what these
sections say: the first volume among them, and the locations of all tables, one
segment after another.
-/

set_option autoImplicit false

namespace EvidencePages.Ewf

variable {store : FileStore} {paths : List Path}

/-! ## One segment -/

theorem exists_file_of_checkFileHeader {handle : Handle} {index : Nat}
    (checked : checkFileHeader store handle index = .ok ()) :
    ∃ id, handle = .file id ∧ store.refusal (.file id) = none := by
  have near : ¬FileStore.offsetLimit ≤ 0 + fileHeaderSize := by decide
  have some : fileHeaderSize ≠ 0 := by decide
  have wrong : ((slice (zeros fileHeaderSize) 0 8).data.toList ≠ signature) ∧
      ((slice (zeros fileHeaderSize) 0 8).data.toList ≠ secondVersionSignature) ∧
      ((slice (zeros fileHeaderSize) 0 8).data.toList ≠ logicalSignature) := by decide
  rw [checkFileHeader, readBytes, FileStore.readFull_eq_delivered, FileStore.delivered,
    if_neg some, if_neg near] at checked
  cases granted : store.readFault? handle with
  | some cause =>
    rw [granted] at checked
    cases checked
  | none =>
    rw [granted] at checked
    cases handle with
    | file id => exact ⟨id, rfl, granted⟩
    | directory location => cases granted
    | device kind =>
      cases kind with
      | null => cases checked
      | zero =>
        dsimp only [FileStore.extent] at checked
        rw [size_zeros, if_neg (Nat.lt_irrefl _), if_neg wrong.2.1, if_neg wrong.2.2,
          if_pos wrong.1] at checked
        cases checked

/-- A segment file and how many sections of its chain are visited. -/
structure Visited where
  bytes : ByteArray
  count : Nat

namespace Visited

structure Sound (file : Visited) : Prop where
  cut : SectionChain.Cut file.bytes maxSections file.count
  faultless : SectionChain.firstFault? none file.bytes file.count = none

def volume? (file : Visited) : Option Volume :=
  ((SectionChain.sections file.bytes file.count).find? (SectionChain.kindIs .volume)).map
    (SectionChain.volumeOf file.bytes)

def IsPart (file : Visited) (store : FileStore) (paths : List Path) (index : Nat) : Prop :=
  ∃ id, HandlePool.fetched store paths index = .ok (.file id) ∧ store.content id = file.bytes

end Visited

def firstVolume? (files : List Visited) : Option Volume := files.findSome? Visited.volume?

/-- What the tables of the files list, the first one being segment `index`. -/
def listedFrom : Nat → List Visited → List ChunkLocation
  | _, [] => []
  | index, file :: rest =>
    SectionChain.chunks file.bytes index file.count ++ listedFrom (index + 1) rest

/-- The parts are no longer than a number can tell. -/
def Countable (store : FileStore) (paths : List Path) : Prop :=
  ∀ path ∈ paths, (store.bytesAt path).size < UInt64.size

theorem bytesAt_of_fetched {index id : Nat}
    (fetched : HandlePool.fetched store paths index = .ok (.file id)) :
    ∃ path ∈ paths, store.bytesAt path = store.content id := by
  unfold HandlePool.fetched at fetched
  split at fetched
  · cases fetched
  · rename_i path there
    refine ⟨path, List.mem_of_getElem? there, ?_⟩
    rw [FileStore.bytesAt, fetched]

theorem segmentAt_eq_ok (countable : Countable store paths) {index size : Nat} {taken : Gathered}
    (there : segmentAt store paths index = .ok (size, taken)) :
    ∃ file : Visited, file.IsPart store paths index ∧ file.Sound ∧ size = file.bytes.size ∧
      taken = SectionChain.gathered file.bytes index file.count := by
  unfold segmentAt at there
  split at there
  · cases there
  rename_i handle fetched
  split at there
  · cases there
  rename_i checked
  split at there
  · cases there
  rename_i gathered walk
  cases there
  obtain ⟨id, rfl, granted⟩ := exists_file_of_checkFileHeader checked
  obtain ⟨path, listed, same⟩ := bytesAt_of_fetched fetched
  have short : (store.content id).size < UInt64.size := same ▸ countable path listed
  obtain ⟨count, cut, faultless, taken⟩ :=
    SectionChain.gathered_of_walkSections rfl short walk
  rw [granted] at faultless
  exact ⟨⟨store.content id, count⟩, ⟨id, fetched, rfl⟩, ⟨cut, faultless⟩, rfl, taken⟩

/-! ## All segments -/

structure Opening.Adds (store : FileStore) (opening : Opening) (index : Nat)
    (files : List Visited) (last : Opening) : Prop where
  paths : last.pool.paths = opening.pool.paths
  parts : ∀ (place : Nat) (file : Visited), files[place]? = some file →
    file.IsPart store opening.pool.paths (index + place)
  sound : ∀ file ∈ files, file.Sound
  sizes : last.segmentSizes.toList = opening.segmentSizes.toList ++ files.map (·.bytes.size)
  volume : last.volume = opening.volume.or (firstVolume? files)
  chunks : last.chunks.toList = opening.chunks.toList ++ listedFrom index files

theorem Opening.adds_nothing (opening : Opening) (index : Nat) :
    opening.Adds store index [] opening :=
  ⟨rfl, nofun, nofun, (List.append_nil _).symm, (Option.or_none).symm, (List.append_nil _).symm⟩

theorem addSegment_adds {opening next : Opening} (sound : opening.pool.Sound store)
    (countable : Countable store opening.pool.paths) {index : Nat}
    (added : addSegment store index opening = .ok next) :
    next.pool.Sound store ∧ ∃ file, opening.Adds store index [file] next := by
  obtain ⟨handles, fetch, kept⟩ := HandlePool.fetch_eq sound index
  rw [addSegment_eq sound] at added
  split at added
  · cases added
  rename_i size taken there
  cases added
  obtain ⟨file, part, whole, rfl, rfl⟩ := segmentAt_eq_ok countable there
  rw [fetch]
  refine ⟨kept, file, rfl, ?_, ?_, ?_, ?_, ?_⟩
  · intro place other found
    obtain ⟨rfl, rfl⟩ : place = 0 ∧ file = other := by
      cases place with
      | zero => exact ⟨rfl, Option.some.inj found⟩
      | succ place => cases found
    exact part
  · intro other listed
    obtain rfl := List.mem_singleton.mp listed
    exact whole
  · exact Array.toList_push
  · rw [firstVolume?, List.findSome?_singleton]
    rfl
  · rw [listedFrom, listedFrom, List.append_nil]
    exact Array.toList_append

theorem addSegments_adds {count index : Nat} {opening last : Opening}
    (sound : opening.pool.Sound store) (countable : Countable store opening.pool.paths)
    (added : addSegments store count index opening = .ok last) :
    ∃ files, files.length = count ∧ opening.Adds store index files last := by
  -- The parts of the set and its pool of paths are the same at every step.
  induction count generalizing index opening with
  | zero =>
    cases added
    exact ⟨[], rfl, last.adds_nothing index⟩
  | succ count ih =>
    rw [addSegments] at added
    split at added
    · cases added
    rename_i next step
    obtain ⟨kept, file, first⟩ := addSegment_adds sound countable step
    obtain ⟨files, length, rest⟩ := ih kept (first.paths ▸ countable) added
    refine ⟨file :: files, by rw [List.length_cons, length], rest.paths.trans first.paths, ?_, ?_,
      ?_, ?_, ?_⟩
    · intro place other found
      cases place with
      | zero => exact first.parts 0 other found
      | succ place =>
        have part := rest.parts place other found
        rwa [first.paths, Nat.add_right_comm, Nat.add_assoc] at part
    · intro other listed
      rcases List.mem_cons.mp listed with rfl | later
      · exact first.sound other (List.mem_singleton_self other)
      · exact rest.sound other later
    · rw [rest.sizes, first.sizes, List.append_assoc]
      rfl
    · rw [rest.volume, first.volume, firstVolume?, firstVolume?, firstVolume?,
        List.findSome?_singleton, List.findSome?_cons, Option.or_assoc]
      cases file.volume? <;> rfl
    · rw [rest.chunks, first.chunks, listedFrom, listedFrom, List.append_nil, List.append_assoc,
        listedFrom]

namespace Reader

/-- A set of these files opens to the reader. -/
structure MadeFrom (store : FileStore) (paths : List Path) (files : List Visited)
    (reader : Reader) : Prop where
  pool : reader.pool.paths = paths
  length : files.length = paths.length
  parts : ∀ (index : Nat) (file : Visited), files[index]? = some file →
    file.IsPart store paths index
  sound : ∀ file ∈ files, file.Sound
  sizes : reader.segmentSizes.toList = files.map (·.bytes.size)
  volume : firstVolume? files = some reader.volume
  chunks : reader.chunks.toList = (listedFrom 0 files).take reader.volume.chunkCount.toNat

theorem exists_madeFrom (countable : Countable store paths) {maxOpen : Nat} {reader : Reader}
    (success : openParts store paths maxOpen = .ok reader) :
    ∃ files, MadeFrom store paths files reader := by
  obtain ⟨-, opening, added, made⟩ := openParts_eq_ok_iff.mp success
  obtain ⟨volume, told, -, rfl⟩ := ofOpening_eq_ok_iff.mp made
  obtain ⟨files, length, adds⟩ :=
    addSegments_adds (HandlePool.sound_ofPaths store paths maxOpen) countable added
  refine ⟨files, adds.paths, length, ?_, adds.sound, adds.sizes, ?_, ?_⟩
  · intro index file found
    have part := adds.parts index file found
    rwa [Nat.zero_add] at part
  · have first := adds.volume
    rw [told, Option.none_or] at first
    exact first.symm
  · dsimp only
    rw [Array.take_eq_extract, Array.toList_extract, List.extract_eq_take_drop, List.drop_zero,
      Nat.sub_zero, adds.chunks]
    rfl

namespace MadeFrom

variable {files : List Visited} {reader : Reader} (made : MadeFrom store paths files reader)

include made

theorem segmentSize {index : Nat} {file : Visited} (found : files[index]? = some file) :
    reader.segmentSizes.getD index 0 = file.bytes.size := by
  rw [Array.getD_eq_getD_getElem?, ← Array.getElem?_toList, made.sizes, List.getElem?_map, found]
  rfl

end MadeFrom

end Reader

end EvidencePages.Ewf

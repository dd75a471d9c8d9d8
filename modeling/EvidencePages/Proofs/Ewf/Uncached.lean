import EvidencePages.Proofs.Ewf.FullReads

/-!
# Reads that remember nothing

A set can be opened with room for the handles of all its parts, and chunks can
be decoded anew whenever they are touched. As long as the files stay as they
are, a reader with few handles and some chunks at hand answers every call as
such a reader would that was opened for this call alone.
-/

set_option autoImplicit false

namespace EvidencePages.Ewf

variable {store later : FileStore} {handle : Handle} {paths : List Path}

/-! ## Unchanged files -/

theorem readBytes_same (same : store.SameThrough later handle) :
    readBytes later handle = readBytes store handle := by
  funext offset length
  simp only [readBytes, same.readFull_eq]

theorem checkFileHeader_same (same : store.SameThrough later handle) (index : Nat) :
    checkFileHeader later handle index = checkFileHeader store handle index := by
  rw [checkFileHeader, checkFileHeader, readBytes_same same]

theorem visit_same (same : store.SameThrough later handle) :
    visit later handle = visit store handle := by
  have table : readTable later handle = readTable store handle := by
    funext segment sectorsEnd descriptor
    rw [readTable, readTable, readBytes_same same]
  funext segment gathered descriptor
  rw [visit, visit, readBytes_same same, table]

theorem walkFrom_same (same : store.SameThrough later handle) (segment : Nat) (fileSize : UInt64)
    (count : Nat) (offset : UInt64) (gathered : Gathered) :
    walkFrom later handle segment fileSize count offset gathered =
      walkFrom store handle segment fileSize count offset gathered := by
  induction count generalizing offset gathered with
  | zero => rfl
  | succ count ih =>
    rw [walkFrom, walkFrom, readBytes_same same, visit_same same]
    simp only [ih]

theorem walkSections_same (same : store.SameThrough later handle) (segment : Nat) :
    walkSections later handle segment = walkSections store handle segment := by
  rw [walkSections, walkSections, same.length, walkFrom_same same]

theorem Reader.decoded_keeps {reader : Reader} (keeps : store.Keeps later reader.pool.paths) :
    reader.decoded later = reader.decoded store := by
  funext index
  unfold decoded
  split
  · rfl
  · rw [HandlePool.fetched_keeps keeps]
    split
    · rfl
    · rename_i opened
      rw [decodeChunk, decodeChunk, readBytes_same (HandlePool.sameThrough_of_fetched keeps opened)]

theorem Reader.Sound.keeps {reader : Reader} (sound : reader.Sound store)
    (keeps : store.Keeps later reader.pool.paths) : reader.Sound later where
  handles := sound.handles.keeps keeps
  chunks index data found := by
    rw [decoded_keeps keeps]
    exact sound.chunks index data found

/-! ## Opening -/

/-- The size of segment `index` and what it holds, from a handle opened for it alone. -/
def segmentAt (store : FileStore) (paths : List Path) (index : Nat) :
    Except ContainerError (Nat × Gathered) :=
  match HandlePool.fetched store paths index with
  | .error cause => .error (.io cause)
  | .ok handle =>
    match checkFileHeader store handle index with
    | .error cause => .error cause
    | .ok () =>
      match walkSections store handle index with
      | .error cause => .error cause
      | .ok gathered => .ok (store.length handle, gathered)

theorem segmentAt_keeps (keeps : store.Keeps later paths) (index : Nat) :
    segmentAt later paths index = segmentAt store paths index := by
  unfold segmentAt
  rw [HandlePool.fetched_keeps keeps]
  split
  · rfl
  · rename_i opened
    have same := HandlePool.sameThrough_of_fetched keeps opened
    rw [checkFileHeader_same same, walkSections_same same, same.length]

namespace Opening

def adding (opening : Opening) (pool : HandlePool) (size : Nat) (gathered : Gathered) :
    Opening where
  pool := pool
  segmentSizes := opening.segmentSizes.push size
  volume := opening.volume.or gathered.volume
  chunks := opening.chunks ++ gathered.chunks
  caseInfo := opening.caseInfo.or (gathered.wideHeader.or gathered.header)

/-- Two openings of one set that differ in their pools alone, of which the other one holds all
handles so far. -/
structure Paired (store later : FileStore) (count : Nat) (one other : Opening) : Prop where
  paths : other.pool.paths = one.pool.paths
  rest : other = { one with pool := other.pool }
  sound : one.pool.Sound store
  sound_other : other.pool.Sound later
  holds : other.pool.Holds count

end Opening

theorem addSegment_eq {opening : Opening} (sound : opening.pool.Sound store) (index : Nat) :
    addSegment store index opening =
      match segmentAt store opening.pool.paths index with
      | .error cause => .error cause
      | .ok (size, gathered) =>
        .ok (opening.adding (opening.pool.fetch store index).2 size gathered) := by
  obtain ⟨handles, fetch, -⟩ := HandlePool.fetch_eq sound index
  rw [addSegment, segmentAt, fetch]
  cases HandlePool.fetched store opening.pool.paths index with
  | error cause => rfl
  | ok handle =>
    dsimp only
    cases checkFileHeader store handle index with
    | error cause => rfl
    | ok checked =>
      dsimp only
      cases walkSections store handle index <;> rfl

theorem fetched_of_segmentAt {index : Nat} {found : Nat × Gathered}
    (there : segmentAt store paths index = .ok found) :
    ∃ handle, HandlePool.fetched store paths index = .ok handle := by
  unfold segmentAt at there
  split at there
  · cases there
  · exact ⟨_, ‹_›⟩

theorem addSegment_paired {count : Nat} {one other next : Opening}
    (paired : Opening.Paired store later count one other)
    (keeps : store.Keeps later one.pool.paths) (room : count < other.pool.maxOpen)
    (added : addSegment store count one = .ok next) :
    ∃ next', addSegment later count other = .ok next' ∧
      Opening.Paired store later (count + 1) next next' ∧
      next.pool.paths = one.pool.paths ∧ next'.pool.maxOpen = other.pool.maxOpen := by
  obtain ⟨handles, fetch, sound⟩ := HandlePool.fetch_eq paired.sound count
  obtain ⟨handles', fetch', sound'⟩ := HandlePool.fetch_eq paired.sound_other count
  rw [addSegment_eq paired.sound] at added
  rw [addSegment_eq paired.sound_other, paired.paths, segmentAt_keeps keeps]
  cases there : segmentAt store one.pool.paths count with
  | error cause =>
    rw [there] at added
    cases added
  | ok found =>
    rw [there] at added
    cases added
    obtain ⟨handle, opened⟩ := fetched_of_segmentAt there
    have given : (other.pool.fetch later count).1 = .ok handle := by
      rw [fetch', paired.paths, HandlePool.fetched_keeps keeps, opened]
    have holds := paired.holds.fetch room given
    refine ⟨_, rfl, ⟨?_, ?_, ?_, ?_, holds⟩, ?_, ?_⟩
    · rw [Opening.adding, Opening.adding, fetch, fetch']
      exact paired.paths
    · rw [paired.rest]
      rfl
    · rw [Opening.adding, fetch]
      exact sound
    · rw [Opening.adding, fetch']
      exact sound'
    · rw [Opening.adding, fetch]
    · rw [Opening.adding, fetch']

theorem addSegments_paired {count index : Nat} {one other last : Opening}
    (paired : Opening.Paired store later index one other)
    (keeps : store.Keeps later one.pool.paths) (room : index + count ≤ other.pool.maxOpen)
    (added : addSegments store count index one = .ok last) :
    ∃ last', addSegments later count index other = .ok last' ∧
      Opening.Paired store later (index + count) last last' ∧
      last.pool.paths = one.pool.paths := by
  induction count generalizing index one other with
  | zero =>
    cases added
    exact ⟨other, rfl, paired, rfl⟩
  | succ count ih =>
    rw [addSegments] at added
    split at added
    · cases added
    rename_i next step
    obtain ⟨next', step', kept, paths, limit⟩ := addSegment_paired paired keeps (by omega) step
    have total : index + (count + 1) = index + 1 + count := by omega
    rw [total] at room ⊢
    obtain ⟨last', rest, final, same⟩ := ih kept (paths ▸ keeps) (limit ▸ room) added
    refine ⟨last', ?_, final, same.trans paths⟩
    rw [addSegments, step']
    exact rest

namespace Reader

theorem ofOpening_sound {opening : Opening} (sound : opening.pool.Sound store) {reader : Reader}
    (made : ofOpening opening = .ok reader) :
    reader.Sound store ∧ reader.pool = opening.pool ∧
      ∀ pool, ofOpening { opening with pool } = .ok { reader with pool } := by
  obtain ⟨volume, told, sized, rfl⟩ := ofOpening_eq_ok_iff.mp made
  refine ⟨⟨sound, ?_⟩, rfl, ?_⟩
  · intro index data found
    simp [Recency.find?] at found
  · exact fun pool => ofOpening_eq_ok_iff.mpr ⟨volume, told, sized, rfl⟩

theorem openParts_roomy {maxOpen limit : Nat} {reader : Reader}
    (success : openParts store paths maxOpen = .ok reader) (keeps : store.Keeps later paths)
    (room : paths.length ≤ limit) :
    reader.Sound store ∧ reader.pool.paths = paths ∧
      ∃ pool, openParts later paths limit = .ok { reader with pool } ∧ pool.Sound later ∧
        pool.paths = paths ∧ pool.Holds paths.length := by
  obtain ⟨some, opening, added, made⟩ := openParts_eq_ok_iff.mp success
  have start : Opening.Paired store later 0 { pool := .ofPaths paths maxOpen }
      { pool := .ofPaths paths limit } :=
    ⟨rfl, rfl, HandlePool.sound_ofPaths _ _ _, HandlePool.sound_ofPaths _ _ _,
      ⟨Nat.le_refl _, nofun⟩⟩
  obtain ⟨other, added', paired, same⟩ := addSegments_paired start keeps
    (Nat.le_trans (Nat.le_of_eq (Nat.zero_add _)) room) added
  obtain ⟨sound, pool, others⟩ := ofOpening_sound paired.sound made
  have paths' : opening.pool.paths = paths := same
  have holds := paired.holds
  rw [Nat.zero_add] at holds
  refine ⟨sound, ?_, other.pool, ?_, paired.sound_other, paired.paths.trans paths', holds⟩
  · rw [pool]
    exact paths'
  · refine openParts_eq_ok_iff.mpr ⟨some, other, added', ?_⟩
    rw [paired.rest]
    exact others other.pool

/-! ## Reads -/

structure Call where
  store : FileStore
  offset : Nat
  length : Nat

def afterCalls (reader : Reader) : List Call → Reader
  | [] => reader
  | call :: rest => (readAt call.store reader call.offset call.length).2.afterCalls rest

theorem afterCalls_kept {reader : Reader} (sound : reader.Sound store) (history : List Call)
    (keeps : ∀ call ∈ history, store.Keeps call.store reader.pool.paths) :
    (reader.afterCalls history).Sound store ∧
      ∃ handles chunks, reader.afterCalls history = reader.remembering handles chunks := by
  induction history generalizing reader with
  | nil => exact ⟨sound, _, _, rfl⟩
  | cons call rest ih =>
    have first := keeps call List.mem_cons_self
    obtain ⟨next, read, kept⟩ := readAt_eq (sound.keeps first) call.offset call.length
    obtain ⟨handles, chunks, frame⟩ := readAt_frame call.store reader call.offset call.length
    rw [read] at frame
    dsimp only at frame
    have same : next.pool.paths = reader.pool.paths := by
      rw [frame]
      rfl
    obtain ⟨final, handles, chunks, last⟩ := ih (kept.keeps (same ▸ first.symm))
      (fun later listed => same ▸ keeps later (List.mem_cons_of_mem _ listed))
    rw [afterCalls, read]
    refine ⟨final, handles, chunks, ?_⟩
    rw [last, frame]
    rfl

/-- A read that decodes every chunk that it touches, whatever is remembered. -/
def uncachedFrom (store : FileStore) (reader : Reader) (offset length : Nat) :
    Except ContainerError ByteArray × Reader :=
  if length = 0 then (.ok .empty, reader)
  else
    match loadChunk store reader (offset / reader.chunkSize) with
    | (.error cause, reader) => (.error cause, reader)
    | (.ok chunk, next) =>
      let piece := slice chunk (offset % reader.chunkSize) length
      if piece.size = 0 then (.ok .empty, next)
      else
        match uncachedFrom store next (offset + piece.size) (length - piece.size) with
        | (.error cause, last) => (.error cause, last)
        | (.ok rest, last) => (.ok (piece ++ rest), last)
termination_by length
decreasing_by
  change length - piece.size < length
  omega

def uncachedAt (store : FileStore) (reader : Reader) (offset length : Nat) :
    Except ContainerError ByteArray × Reader :=
  if UInt64.size ≤ reader.mediaSize then (.error .overflow, reader)
  else uncachedFrom store reader offset (min length (reader.mediaSize - offset))

theorem uncachedFrom_eq {reader : Reader} (sound : reader.Sound store) (offset length : Nat) :
    (uncachedFrom store reader offset length).1 =
      assembled (reader.decoded store) reader.chunkSize offset length := by
  induction length using Nat.strongRecOn generalizing reader offset with
  | ind length ih =>
    rw [uncachedFrom, assembled]
    by_cases none : length = 0
    · rw [if_pos none, if_pos none]
    rw [if_neg none, if_neg none]
    obtain ⟨handles, frame⟩ := loadChunk_frame store reader (offset / reader.chunkSize)
    obtain ⟨next, load, kept⟩ := loadChunk_eq sound (offset / reader.chunkSize)
    rw [load] at frame
    rw [load]
    cases reader.decoded store (offset / reader.chunkSize) with
    | error cause => rfl
    | ok chunk =>
      dsimp only at frame ⊢
      generalize slice chunk (offset % reader.chunkSize) length = piece
      by_cases last : piece.size = 0
      · rw [if_pos last, if_pos last]
      · have rest := ih (length - piece.size) (by omega) kept (offset + piece.size)
        have same : next.decoded store = reader.decoded store := by rw [frame, decoded_remembering]
        have step : next.chunkSize = reader.chunkSize := by rw [frame]; rfl
        rw [same, step] at rest
        rw [if_neg last, if_neg last, ← rest]
        cases uncachedFrom store next (offset + piece.size) (length - piece.size) with
        | mk result final => cases result <;> rfl

theorem uncachedAt_eq {reader : Reader} (sound : reader.Sound store) (offset length : Nat) :
    (uncachedAt store reader offset length).1 = reader.answer store offset length := by
  unfold uncachedAt answer
  split
  · rfl
  · exact uncachedFrom_eq sound offset _

/-- After any calls over unchanged files, a call answers as it would alone, decoding what it
touches, on a reader that was opened afresh with room for all handles and holds them all. -/
theorem readAt_eq_uncached {maxOpen limit : Nat} {reader : Reader} {fresh : FileStore}
    (success : openParts store paths maxOpen = .ok reader) (keeps : store.Keeps fresh paths)
    (room : paths.length ≤ limit) :
    ∃ plain, openParts fresh paths limit = .ok plain ∧
      (∀ part < paths.length, (Recency.find? plain.pool.handles part).isSome) ∧
      ∀ (history : List Call) (call : Call),
        (∀ made ∈ call :: history, store.Keeps made.store paths) →
          (readAt call.store (reader.afterCalls history) call.offset call.length).1 =
            (uncachedAt call.store plain call.offset call.length).1 := by
  obtain ⟨sound, same, pool, opened, kept, others, holds⟩ := openParts_roomy success keeps room
  refine ⟨{ reader with pool }, opened, holds.each, ?_⟩
  intro history call unchanged
  have now := unchanged call List.mem_cons_self
  have alike : ∀ files, Reader.decoded files { reader with pool } = reader.decoded files := by
    intro files
    funext index
    simp only [decoded, others, same]
  have plain : Sound store { reader with pool } :=
    ⟨kept.keeps (others ▸ keeps.symm), fun index data found =>
      (congrFun (alike store) index).trans (sound.chunks index data found)⟩
  obtain ⟨after, handles, chunks, frame⟩ := afterCalls_kept sound history
    (fun made listed => same ▸ unchanged made (List.mem_cons_of_mem _ listed))
  rw [frame] at after ⊢
  have cached := readAt_afterReads (after.keeps (same ▸ now)) [] call.offset call.length
  rw [uncachedAt_eq (plain.keeps (others ▸ now)), answer, alike]
  exact cached

/-! ## Two small segments through one handle -/

def pairStore (share : Nat) : FileStore where
  entries := [
    (["work"], .directory),
    (["case.E01", "work"], .regular 0),
    (["case.E02", "work"], .regular 1)]
  contents := #[loneSegment (volumeSection 3 1 4 3), loneSegment (volumeSection 3 1 4 3)]
  workingDirectory := ["work"]
  grant := fun _ _ _ => share

def pairPaths : List Path := [⟨"case.E01"⟩, ⟨"case.E02"⟩]

theorem pairStore_keeps (share other : Nat) :
    (pairStore share).Keeps (pairStore other) pairPaths := by
  intro path listed
  simp only [pairPaths, List.mem_cons, List.not_mem_nil, or_false] at listed
  rcases listed with rfl | rfl <;> exact ⟨rfl, fun _ _ => ⟨rfl, rfl, rfl⟩⟩

/-- The third chunk is in no table, so that calls that touch it fail. -/
def pairCalls : List Call := [⟨pairStore 1, 0, 8⟩, ⟨pairStore 3, 7, 9⟩, ⟨pairStore 2, 3, 2⟩]

set_option maxRecDepth 20000 in
/-- A call over both segments through one handle, after others of which one failed. -/
theorem readAt_pair :
    (∀ made ∈ (⟨pairStore 5, 2, 4⟩ : Call) :: pairCalls, (pairStore 9).Keeps made.store pairPaths) ∧
      pairPaths.length ≤ 2 ∧
      ∃ reader plain, openParts (pairStore 9) pairPaths 1 = .ok reader ∧
        openParts (pairStore 4) pairPaths 2 = .ok plain ∧
        (readAt (pairStore 5) (reader.afterCalls pairCalls) 2 4).1 =
          .ok (ofBytes [0x46, 0x09, 0x45, 0x56]) ∧
        (uncachedAt (pairStore 5) plain 2 4).1 = .ok (ofBytes [0x46, 0x09, 0x45, 0x56]) := by
  have unchanged : ∀ made ∈ (⟨pairStore 5, 2, 4⟩ : Call) :: pairCalls,
      (pairStore 9).Keeps made.store pairPaths := by
    intro made listed
    simp only [pairCalls, List.mem_cons, List.not_mem_nil, or_false] at listed
    rcases listed with rfl | rfl | rfl | rfl <;> exact pairStore_keeps _ _
  obtain ⟨reader, success, runs⟩ := exists_of_opensTo (pairStore 9) pairPaths 1
    (fun reader => decide ((readAt (pairStore 5) (reader.afterCalls pairCalls) 2 4).1 =
      .ok (ofBytes [0x46, 0x09, 0x45, 0x56])))
    (by decide +kernel)
  have read := of_decide_eq_true runs
  obtain ⟨plain, opened, -, same⟩ :=
    readAt_eq_uncached success (pairStore_keeps 9 4) (Nat.le_refl _)
  exact ⟨unchanged, Nat.le_refl _, reader, plain, success, opened, read,
    (same pairCalls ⟨pairStore 5, 2, 4⟩ unchanged).symm.trans read⟩

end Reader

end EvidencePages.Ewf

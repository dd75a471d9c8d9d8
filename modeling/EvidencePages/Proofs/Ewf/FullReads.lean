import EvidencePages.Proofs.Ewf.Acquisition
import EvidencePages.Proofs.Ewf.SegmentNumbers

/-!
# Full reads of any files

Segment files may hold anything. If they open at all, a read gives its whole
range or fails, and no lookup or copy on the way leaves its bounds. Volumes of
enormous numbers are the exception. A media size of more than 64 bits stops the
program at any read, and a chunk that is too long for a buffer, or compressed
where twice the size of a chunk is no number, stops it where it can be reached.
-/

set_option autoImplicit false

namespace EvidencePages.Ewf

namespace Reader

/-! ## Chunks that stop the program -/

/-- There is neither a result nor an error. -/
def Stops {α : Type} : Except ContainerError α → Prop
  | .ok _ => False
  | .error cause => cause.isFatal = true

theorem not_stops_of_shown {α : Type} {cause : ContainerError} (shown : cause.isFatal = false) :
    ¬Stops (.error cause : Except ContainerError α) :=
  fun stops => absurd (shown.symm.trans stops) Bool.false_ne_true

theorem decodeChunk_stops_iff (store : FileStore) (handle : Handle) (volume : Volume)
    (segmentSize index : Nat) (location : ChunkLocation) (expected : Nat) :
    Stops (decodeChunk store handle volume segmentSize index location expected) ↔
      location.offset.toNat < segmentSize ∧
        ((location.compressed = true ∧ doublesOver volume = true) ∨
          (bufferLimit ≤ expected ∧
            (location.compressed = true → ∃ raw, readBytes store handle location.offset.toNat
              (storedLength volume location (segmentSize - location.offset.toNat)) =
                .ok raw))) := by
  unfold decodeChunk
  dsimp only
  by_cases outside : segmentSize ≤ location.offset.toNat
  · rw [if_pos outside]
    exact iff_of_false (not_stops_of_shown rfl) fun both => Nat.not_lt.mpr outside both.1
  rw [if_neg outside, and_iff_right (Nat.not_le.mp outside)]
  -- A compressed chunk is read before its buffer is asked for, any other behind it.
  by_cases deflated : location.compressed = true
  · rw [if_pos deflated]
    by_cases beyond : doublesOver volume = true
    · rw [if_pos beyond]
      exact iff_of_true rfl (.inl ⟨deflated, beyond⟩)
    rw [if_neg beyond, or_iff_right fun both => beyond both.2]
    cases read : readBytes store handle location.offset.toNat
        (storedLength volume location (segmentSize - location.offset.toNat)) with
    | error cause =>
      refine iff_of_false (not_stops_of_shown (isFatal_of_readBytes read)) ?_
      rintro ⟨-, readable⟩
      obtain ⟨raw, there⟩ := readable deflated
      cases there
    | ok raw =>
      dsimp only
      by_cases wide : bufferLimit ≤ expected
      · rw [if_pos wide]
        exact iff_of_true rfl ⟨wide, fun _ => ⟨raw, rfl⟩⟩
      · rw [if_neg wide]
        refine iff_of_false ?_ fun both => wide both.1
        cases Zlib.decode? raw with
        | none => exact not_stops_of_shown rfl
        | some data =>
          dsimp only
          split
          · exact not_stops_of_shown rfl
          · exact id
  · rw [if_neg deflated, or_iff_right fun both => deflated both.1]
    by_cases wide : bufferLimit ≤ expected
    · rw [if_pos wide]
      exact iff_of_true rfl ⟨wide, fun compressed => absurd compressed deflated⟩
    · rw [if_neg wide]
      refine iff_of_false ?_ fun both => wide both.1
      cases read : readBytes store handle location.offset.toNat expected with
      | error cause => exact not_stops_of_shown (isFatal_of_readBytes read)
      | ok data =>
        dsimp only
        split
        · exact not_stops_of_shown rfl
        · exact id

/-- A chunk that is in the table and in its segment, the segment can be opened, and then the chunk
is too long for any buffer, or it is compressed and twice the size of a chunk is no number. -/
structure Breaks (now : FileStore) (reader : Reader) (index : Nat) : Prop where
  reached : ∃ location handle, reader.chunks[index]? = some location ∧
    (reader.pool.fetch now location.segment).1 = .ok handle ∧
    location.offset.toNat < reader.segmentSizes.getD location.segment 0 ∧
    ((location.compressed = true ∧ doublesOver reader.volume = true) ∨
      (bufferLimit ≤ reader.volume.chunkLength index ∧
        (location.compressed = true → ∃ raw, readBytes now handle location.offset.toNat
          (storedLength reader.volume location
            (reader.segmentSizes.getD location.segment 0 - location.offset.toNat)) = .ok raw)))

theorem Breaks.wide {now : FileStore} {reader : Reader} {index : Nat}
    (breaks : reader.Breaks now index) : bufferLimit ≤ reader.chunkSize := by
  obtain ⟨location, handle, -, -, -, ⟨-, beyond⟩ | ⟨wide, -⟩⟩ := breaks.reached
  · have beyond : UInt64.size ≤ reader.volume.chunkSize.toNat * 2 := of_decide_eq_true beyond
    have twice : bufferLimit + bufferLimit = UInt64.size := rfl
    rw [chunkSize]
    omega
  · exact Nat.le_trans wide (Nat.min_le_left _ _)

theorem Suits.not_breaks {now : FileStore} {reader : Reader} {index : Nat} {data : ByteArray}
    (suits : reader.Suits index data) : ¬reader.Breaks now index := by
  rintro ⟨location, handle, listed, -, -, ⟨compressed, beyond⟩ | ⟨wide, -⟩⟩
  · rw [suits.counted location listed compressed] at beyond
    cases beyond
  · exact Nat.not_lt.mpr wide suits.narrow

theorem Suits.not_breaks_behind {now : FileStore} {reader : Reader} {index later : Nat}
    {data : ByteArray} (suits : reader.Suits index data) (behind : index ≤ later)
    (inside : later * reader.chunkSize < reader.mediaSize) : ¬reader.Breaks now later := by
  rcases Nat.lt_or_eq_of_le behind with before | rfl
  · intro breaks
    have wide := breaks.wide
    have narrow := suits.narrow
    have start := Nat.mul_le_mul_right reader.chunkSize (Nat.succ_le_of_lt before)
    rw [Nat.succ_mul] at start
    rw [Volume.chunkLength, ← chunkSize, ← mediaSize] at narrow
    omega
  · exact suits.not_breaks

theorem loadChunk_stops_iff (now : FileStore) (reader : Reader) (index : Nat) :
    Stops (loadChunk now reader index).1 ↔ reader.Breaks now index := by
  unfold loadChunk
  cases there : reader.chunks[index]? with
  | none =>
    refine iff_of_false (not_stops_of_shown rfl) ?_
    rintro ⟨location, handle, listed, -⟩
    rw [there] at listed
    cases listed
  | some location =>
    dsimp only
    cases fetch : reader.pool.fetch now location.segment with
    | mk result pool =>
      cases result with
      | error cause =>
        refine iff_of_false (not_stops_of_shown rfl) ?_
        rintro ⟨other, handle, listed, opened, -⟩
        cases there.symm.trans listed
        rw [fetch] at opened
        cases opened
      | ok handle =>
        dsimp only
        rw [decodeChunk_stops_iff]
        constructor
        · rintro ⟨inside, stops⟩
          exact ⟨location, handle, there, by rw [fetch], inside, stops⟩
        · rintro ⟨other, opened, listed, same, inside, stops⟩
          cases there.symm.trans listed
          rw [fetch] at same
          cases same
          exact ⟨inside, stops⟩

theorem readChunk_stops_iff {reader : Reader} (regular : reader.Regular) (now : FileStore)
    (index : Nat) : Stops (readChunk now reader index).1 ↔ reader.Breaks now index := by
  unfold readChunk
  cases hit : reader.cache.get index with
  | mk found cache =>
    cases found with
    | some data =>
      obtain ⟨there, -⟩ := ChunkCache.find?_of_get hit
      exact iff_of_false id (regular.kept index data there).not_breaks
    | none =>
      rw [← loadChunk_stops_iff now reader index]
      dsimp only
      cases loadChunk now reader index with
      | mk result next => cases result <;> rfl

/-! ## Reads -/

theorem suits_of_readChunk {reader next : Reader} (regular : reader.Regular) {now : FileStore}
    {index : Nat} {chunk : ByteArray} (read : readChunk now reader index = (.ok chunk, next)) :
    reader.Suits index chunk ∧ next.Suits index chunk := by
  have suits := (readChunk_regular regular now index).2 chunk (congrArg Prod.fst read)
  obtain ⟨handles, chunks, frame⟩ := readChunk_frame now reader index
  rw [read] at frame
  obtain rfl : next = reader.remembering handles chunks := frame
  obtain ⟨length, narrow, counted⟩ := suits
  exact ⟨⟨length, narrow, counted⟩, length, narrow, counted⟩

/-- Only the first chunk that a read touches can stop the program. -/
theorem readFrom_stops_iff {reader : Reader} (regular : reader.Regular) (now : FileStore)
    {offset length : Nat} (inside : offset + length ≤ reader.mediaSize) :
    Stops (readFrom now reader offset length).1 ↔
      0 < length ∧ reader.Breaks now (offset / reader.chunkSize) := by
  fun_induction readFrom now reader offset length with
  | case1 reader offset => exact iff_of_false id fun both => Nat.lt_irrefl 0 both.1
  | case2 reader offset length some cause next read =>
    have chunk := readChunk_stops_iff regular now (offset / reader.chunkSize)
    rw [read] at chunk
    rw [and_iff_right (Nat.pos_of_ne_zero some)]
    exact chunk
  | case3 reader offset length some chunk next read piece last =>
    exact iff_of_false id fun both => (suits_of_readChunk regular read).1.not_breaks both.2
  | case4 reader offset length some chunk next read piece more cause last tail ih =>
    obtain ⟨given, suits⟩ := suits_of_readChunk regular read
    refine iff_of_false ?_ fun both => given.not_breaks both.2
    have kept := (readChunk_regular regular now (offset / reader.chunkSize)).1
    rw [read] at kept
    have volume := volume_of_readChunk read
    have media : next.mediaSize = reader.mediaSize := congrArg Volume.mediaSize volume
    have step : next.chunkSize = reader.chunkSize := by rw [chunkSize, chunkSize, volume]
    have size : piece.size ≤ length := size_slice_le _ _ _
    have later := ih kept (by omega)
    rw [tail] at later
    intro stops
    obtain ⟨asked, breaks⟩ := later.mp stops
    have behind : offset / reader.chunkSize ≤ (offset + piece.size) / next.chunkSize := by
      rw [step]
      exact Nat.div_le_div_right (Nat.le_add_right _ _)
    have start := Nat.div_mul_le_self (offset + piece.size) next.chunkSize
    exact suits.not_breaks_behind behind (by omega) breaks
  | case5 reader offset length some chunk next read piece more rest last tail ih =>
    exact iff_of_false id fun both => (suits_of_readChunk regular read).1.not_breaks both.2

theorem readAt_stops_iff {reader : Reader} (regular : reader.Regular) (now : FileStore)
    (offset length : Nat) :
    Stops (readAt now reader offset length).1 ↔
      UInt64.size ≤ reader.mediaSize ∨
        0 < length ∧ offset < reader.mediaSize ∧
          reader.Breaks now (offset / reader.chunkSize) := by
  by_cases beyond : UInt64.size ≤ reader.mediaSize
  · rw [readAt_of_uncounted beyond]
    exact iff_of_true rfl (.inl beyond)
  rw [readAt_of_counted beyond, or_iff_right beyond]
  by_cases past : reader.mediaSize ≤ offset
  · rw [Nat.sub_eq_zero_of_le past, Nat.min_zero, readFrom, if_pos rfl]
    exact iff_of_false id fun both => Nat.not_lt.mpr past both.2.1
  · rw [readFrom_stops_iff regular now (by omega)]
    constructor
    · rintro ⟨asked, breaks⟩
      exact ⟨by omega, by omega, breaks⟩
    · rintro ⟨asked, inside, breaks⟩
      exact ⟨by omega, breaks⟩

/-! ## Reads of what was opened -/

/-- Chunks have the lengths of their indices, lookups of segments stay inside the set, and copies
out of a chunk go forward and stay inside the chunk and the range. -/
structure InBounds (now : FileStore) (reader : Reader) : Prop where
  segments : ∀ location ∈ reader.chunks, location.segment < reader.segmentSizes.size
  given : ∀ index chunk, (readChunk now reader index).1 = .ok chunk →
    chunk.size = reader.volume.chunkLength index
  kept : ∀ index chunk, Recency.find? reader.cache.chunks index = some chunk →
    chunk.size = reader.volume.chunkLength index
  copied : ∀ position wanted chunk, 0 < wanted → position + wanted ≤ reader.mediaSize →
    (readChunk now reader (position / reader.chunkSize)).1 = .ok chunk →
      let piece := slice chunk (position % reader.chunkSize) wanted
      0 < piece.size ∧ piece.size ≤ wanted ∧
        position % reader.chunkSize + piece.size ≤ chunk.size

theorem Regular.inBounds {reader : Reader} (regular : reader.Regular) (now : FileStore) :
    reader.InBounds now where
  segments := regular.located
  given index chunk read := ((readChunk_regular regular now index).2 chunk read).length
  kept index chunk found := (regular.kept index chunk found).length
  copied position wanted chunk asked inside read := by
    have reach := mod_lt_size regular (by omega) read
    dsimp only
    rw [size_slice]
    omega

def Answers (reader : Reader) (offset length : Nat) : Except ContainerError ByteArray → Prop
  | .ok bytes => bytes.size = min length (reader.mediaSize - offset)
  | .error cause => cause.isFatal = false

/-- Whatever the files held when they were opened and hold now, every read answers unless the media
size is no number or the first chunk that the read touches stops the program. -/
theorem readAt_answers_iff {store : FileStore} {parts : List Path} {maxOpen : Nat}
    {opened reader : Reader} (success : openParts store parts maxOpen = .ok opened)
    (reached : Reached opened reader) (now : FileStore) :
    reader.InBounds now ∧
      ∀ offset length, Reached opened (readAt now reader offset length).2 ∧
        (reader.Answers offset length (readAt now reader offset length).1 ↔
          ¬ (UInt64.size ≤ reader.mediaSize ∨
            0 < length ∧ offset < reader.mediaSize ∧
              reader.Breaks now (offset / reader.chunkSize))) := by
  have regular := reached.regular (openParts_regular success)
  refine ⟨regular.inBounds now, ?_⟩
  intro offset length
  refine ⟨reached.readAt now offset length, ?_⟩
  rw [← readAt_stops_iff regular now offset length]
  have full : ∀ bytes, (readAt now reader offset length).1 = .ok bytes →
      bytes.size = min length (reader.mediaSize - offset) := fun _ => size_readAt regular
  cases read : (readAt now reader offset length).1 with
  | ok bytes => exact iff_of_true (full bytes read) id
  | error cause => exact iff_of_eq (Bool.not_eq_true cause.isFatal).symm

/-! ## Sets of one small segment -/

def opensTo (store : FileStore) (parts : List Path) (maxOpen : Nat) (test : Reader → Bool) : Bool :=
  match openParts store parts maxOpen with
  | .ok opened => test opened
  | .error _ => false

theorem exists_of_opensTo (store : FileStore) (parts : List Path) (maxOpen : Nat)
    (test : Reader → Bool) (runs : opensTo store parts maxOpen test = true) :
    ∃ opened, openParts store parts maxOpen = .ok opened ∧ test opened = true := by
  unfold opensTo at runs
  split at runs
  · exact ⟨_, ‹_›, runs⟩
  · cases runs

def loneTable : ByteArray := tableSection 0 [0]

def loneSegment (volume : ByteArray) : ByteArray :=
  Acquisition.fileHeader 0 ++ Content.laidOut fileHeaderSize
    [⟨"volume", volume⟩, ⟨"table", loneTable⟩, ⟨"done", .empty⟩]

def loneStore (volume : ByteArray) : FileStore where
  entries := [
    (["work"], .directory),
    (["case.E01", "work"], .regular 0)]
  contents := #[loneSegment volume]
  workingDirectory := ["work"]

/-- Five chunks are declared, three fit in the media, and one is there. -/
def mismatched : FileStore := loneStore (volumeSection 5 1 4 3)

set_option maxRecDepth 20000 in
theorem readAt_answers_mismatched :
    ∃ opened, openParts mismatched [⟨"case.E01"⟩] 1 = .ok opened ∧
      opened.mediaSize = 12 ∧
      (readAt mismatched opened 1 3).1 = .ok (ofBytes [0x56, 0x46, 0x09]) ∧
      (readAt mismatched opened 1 20).1 = .error (.invalid (.chunkMissing 1 1 5)) ∧
      Reached opened (readAt mismatched opened 1 3).2 ∧
      (readAt mismatched opened 1 3).2.InBounds .blank ∧
      ∀ offset length, Reached opened
          (readAt .blank (readAt mismatched opened 1 3).2 offset length).2 ∧
        ((readAt mismatched opened 1 3).2.Answers offset length
            (readAt .blank (readAt mismatched opened 1 3).2 offset length).1 ↔
          ¬ (UInt64.size ≤ (readAt mismatched opened 1 3).2.mediaSize ∨
            0 < length ∧ offset < (readAt mismatched opened 1 3).2.mediaSize ∧
              (readAt mismatched opened 1 3).2.Breaks .blank
                (offset / (readAt mismatched opened 1 3).2.chunkSize))) := by
  obtain ⟨opened, success, runs⟩ := exists_of_opensTo mismatched [⟨"case.E01"⟩] 1
    (fun opened => decide (opened.mediaSize = 12 ∧
      (readAt mismatched opened 1 3).1 = .ok (ofBytes [0x56, 0x46, 0x09]) ∧
      (readAt mismatched opened 1 20).1 = .error (.invalid (.chunkMissing 1 1 5))))
    (by decide +kernel)
  obtain ⟨size, full, missing⟩ := of_decide_eq_true runs
  have reached : Reached opened (readAt mismatched opened 1 3).2 :=
    Reached.opened.readAt mismatched 1 3
  exact ⟨opened, success, size, full, missing, reached,
    readAt_answers_iff success reached .blank⟩

/-- A first chunk of more than 2⁶³ bytes. -/
def overlong : FileStore := loneStore (volumeSection 1 0xFFFFFFFF 0xFFFFFFFF 0x80000001)

set_option maxRecDepth 20000 in
/-- The first byte of a set that opens cannot be read, and no cause is given. -/
theorem not_answers_overlong :
    ∃ opened, openParts overlong [⟨"case.E01"⟩] 1 = .ok opened ∧
      opened.mediaSize = 9223372039002259455 ∧
      (readAt overlong opened 0 1).1 = .error (.bufferTooLarge 9223372039002259455) ∧
      ¬ opened.Answers 0 1 (readAt overlong opened 0 1).1 := by
  obtain ⟨opened, success, runs⟩ := exists_of_opensTo overlong [⟨"case.E01"⟩] 1
    (fun opened => decide (opened.mediaSize = 9223372039002259455 ∧
      (readAt overlong opened 0 1).1 = .error (.bufferTooLarge 9223372039002259455)))
    (by decide +kernel)
  obtain ⟨size, stopped⟩ := of_decide_eq_true runs
  refine ⟨opened, success, size, stopped, ?_⟩
  rw [stopped]
  exact Bool.noConfusion

end Reader

end EvidencePages.Ewf

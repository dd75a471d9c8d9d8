import EvidencePages.Ewf.Segment
import EvidencePages.Proofs.Ewf.Acquisition
import EvidencePages.Proofs.Store.PositionedRead

/-!
# The chain of sections of any file

A segment file may hold anything. Its descriptors still make a chain: the
first stands behind the file header, and each one tells where the next stands.
A walk visits the sections at the beginning of that chain. What it gathers is
told by the visited descriptors and by the bytes that they refer to.
-/

set_option autoImplicit false

namespace EvidencePages.Ewf

namespace SectionChain

/-! ## Descriptors -/

def descriptorAt (bytes : ByteArray) (offset : Nat) : Descriptor :=
  .parse (slice bytes offset Descriptor.length) (UInt64.ofNat offset)

def offset (bytes : ByteArray) : Nat → Nat
  | 0 => fileHeaderSize
  | number + 1 => (descriptorAt bytes (offset bytes number)).next.toNat

def descriptor (bytes : ByteArray) (number : Nat) : Descriptor :=
  descriptorAt bytes (offset bytes number)

def sections (bytes : ByteArray) (count : Nat) : List Descriptor :=
  (List.range count).map (descriptor bytes)

theorem sections_succ (bytes : ByteArray) (count : Nat) :
    sections bytes (count + 1) = sections bytes count ++ [descriptor bytes count] := by
  rw [sections, List.range_succ, List.map_append]
  rfl

theorem offset_lt (bytes : ByteArray) (number : Nat) : offset bytes number < UInt64.size := by
  cases number with
  | zero => exact (by decide : fileHeaderSize < UInt64.size)
  | succ number => exact (descriptor bytes number).next.toNat_lt

theorem toNat_place (bytes : ByteArray) (number : Nat) :
    (UInt64.ofNat (offset bytes number)).toNat = offset bytes number := by
  rw [UInt64.toNat_ofNat', Nat.mod_eq_of_lt (offset_lt bytes number)]

/-! ## Where a walk ends -/

def Fits (bytes : ByteArray) (number : Nat) : Prop :=
  offset bytes number + Descriptor.length ≤ bytes.size

/-- The section is not the last one, and the next one stands behind it. -/
def LeadsOn (bytes : ByteArray) (number : Nat) : Prop :=
  (descriptor bytes number).kind ≠ .last ∧ offset bytes number < offset bytes (number + 1)

instance (bytes : ByteArray) (number : Nat) : Decidable (Fits bytes number) :=
  inferInstanceAs (Decidable (_ ≤ _))

instance (bytes : ByteArray) (number : Nat) : Decidable (LeadsOn bytes number) :=
  inferInstanceAs (Decidable (_ ∧ _))

/-- A walk of at most `limit` sections visits the first `count` of the chain. -/
structure Cut (bytes : ByteArray) (limit count : Nat) : Prop where
  le_limit : count ≤ limit
  fits : ∀ number < count, Fits bytes number
  leads : ∀ number, number + 1 < count → LeadsOn bytes number
  stops : count < limit → Fits bytes count → ∃ last, count = last + 1 ∧ ¬LeadsOn bytes last

theorem exists_cut (bytes : ByteArray) (limit : Nat) : ∃ count, Cut bytes limit count := by
  induction limit with
  | zero => exact ⟨0, Nat.le_refl 0, nofun, nofun, nofun⟩
  | succ limit ih =>
    obtain ⟨count, cut⟩ := ih
    by_cases ended : Fits bytes count → ∃ last, count = last + 1 ∧ ¬LeadsOn bytes last
    · exact ⟨count, Nat.le_succ_of_le cut.le_limit, cut.fits, cut.leads, fun _ => ended⟩
    · -- Only the limit kept the walk from going on.
      obtain ⟨there, goesOn⟩ := Classical.not_imp.mp ended
      have full : limit ≤ count := Nat.le_of_not_lt fun less => ended (cut.stops less)
      have same : count = limit := Nat.le_antisymm cut.le_limit full
      refine ⟨count + 1, by omega, ?_, ?_, fun less => absurd less (by omega)⟩
      · intro number below
        rcases Nat.lt_succ_iff_lt_or_eq.mp below with before | same
        · exact cut.fits number before
        · exact same ▸ there
      · intro number below
        rcases Nat.lt_succ_iff_lt_or_eq.mp below with before | same
        · exact cut.leads number before
        · exact Decidable.of_not_not fun stays => goesOn ⟨number, same.symm, stays⟩

namespace Cut

variable {bytes : ByteArray} {limit count other : Nat}

theorem le (cut : Cut bytes limit count) (also : Cut bytes limit other) : other ≤ count := by
  apply Nat.le_of_not_lt
  intro less
  obtain ⟨last, same, stays⟩ :=
    cut.stops (Nat.lt_of_lt_of_le less also.le_limit) (also.fits count less)
  exact stays (also.leads last (same ▸ less))

theorem unique (cut : Cut bytes limit count) (also : Cut bytes limit other) : other = count :=
  Nat.le_antisymm (cut.le also) (also.le cut)

theorem offset_lt_offset (cut : Cut bytes limit count) {number later : Nat} (less : number < later)
    (visited : later < count) : offset bytes number < offset bytes later := by
  induction less with
  | refl => exact (cut.leads number visited).2
  | step _ ih => exact Nat.lt_trans (ih (by omega)) (cut.leads _ visited).2

end Cut

/-! ## What a section holds -/

def kindIs (kind : SectionKind) (d : Descriptor) : Bool := d.kind = kind

/-- A range of a file is not read if it does not end at a file position or the host refuses. -/
def unreadable? (refusal : Option IoError) (start length : Nat) : Option ContainerError :=
  if length = 0 then none
  else if FileStore.offsetLimit ≤ start + length then some (.io .invalidArgument)
  else refusal.map .io

def truncated? (bytes : ByteArray) (stop : Nat) (defect : Defect) : Option ContainerError :=
  if bytes.size < stop then some (.invalid defect) else none

def headerLength (d : Descriptor) : Nat := min d.dataSize maxHeaderLength

def caseInfoOf (bytes : ByteArray) (wide : Bool) (d : Descriptor) : CaseInfo :=
  .decode wide (slice bytes d.dataOffset.toNat (headerLength d))

def volumeOf (bytes : ByteArray) (d : Descriptor) : Volume :=
  .parse (slice bytes d.dataOffset.toNat Volume.length)

/-- A table has the entries that it declares, up to the room in its section. -/
def entryCount (bytes : ByteArray) (d : Descriptor) : Nat :=
  min (u32At bytes d.dataOffset.toNat).toNat
    ((d.dataSize - Table.headerLength) / Table.entryLength)

def tableBase (bytes : ByteArray) (d : Descriptor) : UInt64 := u64At bytes (d.dataOffset.toNat + 8)

def tableEntries (bytes : ByteArray) (d : Descriptor) : ByteArray :=
  slice bytes (d.dataOffset.toNat + Table.headerLength) (entryCount bytes d * Table.entryLength)

def locationsOf (bytes : ByteArray) (segment : Nat) (stop : Option UInt64) (d : Descriptor) :
    List ChunkLocation :=
  Table.locations segment (tableBase bytes d) stop (tableEntries bytes d)

/-- Why a section cannot be read whole. Of the volumes only the first is read. -/
def flaw? (refusal : Option IoError) (bytes : ByteArray) (volumeSeen : Bool) (d : Descriptor) :
    Option ContainerError :=
  let start := d.dataOffset.toNat
  match d.kind with
  | .header _ => unreadable? refusal start (headerLength d)
  | .volume =>
    if volumeSeen then none
    else
      (unreadable? refusal start Volume.length).or
        (truncated? bytes (start + Volume.length) .volumeTruncated)
  | .table =>
    (unreadable? refusal start Table.headerLength).or
      ((truncated? bytes (start + Table.headerLength) .tableTruncated).or
        (unreadable? refusal (start + Table.headerLength)
          (entryCount bytes d * Table.entryLength)))
  | .sectors => none
  | .last => none
  | .other => none

/-- The section tells of a place behind the last number. -/
def overruns (bytes : ByteArray) (d : Descriptor) : Bool :=
  match d.kind with
  | .sectors => d.overflows
  | .table => (Table.entries (tableEntries bytes d)).any (Table.overflows (tableBase bytes d))
  | _ => false

def fault? (refusal : Option IoError) (bytes : ByteArray) (volumeSeen : Bool) (d : Descriptor) :
    Option ContainerError :=
  (flaw? refusal bytes volumeSeen d).or (if overruns bytes d then some .overflow else none)

def takeIn (bytes : ByteArray) (segment : Nat) (before : Gathered) (d : Descriptor) : Gathered :=
  match d.kind with
  | .header true =>
    { before with wideHeader := before.wideHeader.or (some (caseInfoOf bytes true d)) }
  | .header false => { before with header := before.header.or (some (caseInfoOf bytes false d)) }
  | .volume => { before with volume := before.volume.or (some (volumeOf bytes d)) }
  | .sectors => { before with sectorsEnd := some d.stop }
  | .table =>
    { before with chunks := before.chunks ++ locationsOf bytes segment before.sectorsEnd d }
  | .last => before
  | .other => before

/-- What came of a number of steps: the first fault, or what they made. -/
def outcome {α : Type} (fault : Option ContainerError) (made : α) : Except ContainerError α :=
  match fault with
  | some cause => .error cause
  | none => .ok made

@[simp] theorem outcome_none {α : Type} (made : α) : outcome none made = .ok made := rfl

@[simp] theorem outcome_some {α : Type} (cause : ContainerError) (made : α) :
    outcome (some cause) made = .error cause := rfl

@[simp] theorem bind_ok {α β : Type} (a : α) (f : α → Except ContainerError β) :
    (Except.ok a).bind f = f a := rfl

@[simp] theorem bind_error {α β : Type} (cause : ContainerError)
    (f : α → Except ContainerError β) : (Except.error cause).bind f = .error cause := rfl

theorem outcome_or {α β : Type} (first second : Option ContainerError) (seen : β) (made : α) :
    outcome (first.or second) made = (outcome first seen).bind fun _ => outcome second made := by
  cases first <;> rfl

section Visits

variable {store : FileStore} {id : Nat} {bytes : ByteArray} (content : store.content id = bytes)

include content

theorem readBytes_file (start length : Nat) :
    readBytes store (.file id) start length =
      outcome (unreadable? (store.refusal (.file id)) start length) (slice bytes start length) := by
  have refusal : store.readFault? (.file id) = store.refusal (.file id) := rfl
  rw [readBytes, FileStore.readFull_eq_delivered, FileStore.delivered, FileStore.extent, refusal,
    unreadable?, content]
  by_cases none : length = 0
  · rw [if_pos none, if_pos none, none, slice_zero_length]
    rfl
  · rw [if_neg none, if_neg none]
    by_cases outside : FileStore.offsetLimit ≤ start + length
    · rw [if_pos outside, if_pos outside]
      rfl
    · rw [if_neg outside, if_neg outside]
      cases store.refusal (.file id) <;> rfl

theorem readTable_file (segment : Nat) (stop : Option UInt64) {d : Descriptor}
    (kind : d.kind = .table) (volumeSeen : Bool) :
    readTable store (.file id) segment stop d =
      outcome (fault? (store.refusal (.file id)) bytes volumeSeen d)
        (locationsOf bytes segment stop d) := by
  have width : Table.headerLength = 24 := rfl
  rw [readTable, readBytes_file content, fault?, flaw?, overruns, kind]
  dsimp only
  cases unread : unreadable? (store.refusal (.file id)) d.dataOffset.toNat Table.headerLength with
  | some cause => rfl
  | none =>
    rw [Option.none_or, truncated?]
    dsimp only [outcome]
    have short := size_slice_lt_iff bytes d.dataOffset.toNat (show 0 < Table.headerLength by decide)
    by_cases cut : bytes.size < d.dataOffset.toNat + Table.headerLength
    · rw [if_pos (short.mpr cut), if_pos cut]
      rfl
    · -- The entries start at a file position, so that the sum does not wrap.
      have start : (d.dataOffset + UInt64.ofNat Table.headerLength).toNat =
          d.dataOffset.toNat + Table.headerLength := by
        have limit : FileStore.offsetLimit = 1 <<< 63 := rfl
        rw [Nat.one_shiftLeft] at limit
        have inside : ¬FileStore.offsetLimit ≤ d.dataOffset.toNat + Table.headerLength := by
          intro outside
          rw [unreadable?, if_neg (by decide), if_pos outside] at unread
          cases unread
        rw [UInt64.toNat_add, UInt64.toNat_ofNat', Nat.mod_eq_of_lt (a := Table.headerLength)
          (by omega), Nat.mod_eq_of_lt (by omega)]
      rw [if_neg (fun less => cut (short.mp less)), if_neg cut, Option.none_or, start,
        u32At_slice (by omega), u64At_slice (by omega), Nat.add_zero, ← entryCount, ← tableBase,
        readBytes_file content, ← tableEntries, locationsOf]
      cases unreadable? (store.refusal (.file id)) (d.dataOffset.toNat + Table.headerLength)
        (entryCount bytes d * Table.entryLength) with
      | some cause => rfl
      | none =>
        dsimp only [outcome, Option.none_or]
        split <;> rfl

theorem visit_file (segment : Nat) (before : Gathered) (d : Descriptor) :
    visit store (.file id) segment before d =
      outcome (fault? (store.refusal (.file id)) bytes before.volume.isSome d)
        (takeIn bytes segment before d) := by
  unfold visit
  cases kind : d.kind with
  | header wide =>
    rw [fault?, flaw?, overruns, takeIn, kind]
    dsimp only
    rw [readBytes_file content, ← headerLength, if_neg Bool.false_ne_true, Option.or_none]
    cases unreadable? (store.refusal (.file id)) d.dataOffset.toNat (headerLength d) with
    | some cause => rfl
    | none => cases wide <;> rfl
  | volume =>
    rw [fault?, flaw?, overruns, takeIn, kind]
    dsimp only
    rw [if_neg Bool.false_ne_true, Option.or_none]
    cases seen : before.volume with
    | some volume =>
      rw [Option.some_or, ← seen, if_pos (by rw [seen]; rfl), if_pos (by rw [seen]; rfl)]
      rfl
    | none =>
      rw [readBytes_file content]
      have short := size_slice_lt_iff bytes d.dataOffset.toNat (show 0 < Volume.length by decide)
      simp only [Option.isSome_none, Bool.false_eq_true, if_false, Option.none_or]
      cases unreadable? (store.refusal (.file id)) d.dataOffset.toNat Volume.length with
      | some cause => rfl
      | none =>
        rw [Option.none_or, truncated?]
        dsimp only [outcome]
        by_cases cut : bytes.size < d.dataOffset.toNat + Volume.length
        · rw [if_pos (short.mpr cut), if_pos cut]
        · rw [if_neg (fun less => cut (short.mp less)), if_neg cut]
          rfl
  | sectors =>
    rw [fault?, flaw?, overruns, takeIn, kind]
    dsimp only
    rw [Option.none_or]
    split <;> rfl
  | table =>
    dsimp only
    rw [readTable_file content segment before.sectorsEnd kind before.volume.isSome, takeIn, kind]
    cases fault? (store.refusal (.file id)) bytes before.volume.isSome d <;> rfl
  | last =>
    rw [fault?, flaw?, overruns, takeIn, kind]
    rfl
  | other =>
    rw [fault?, flaw?, overruns, takeIn, kind]
    rfl

end Visits

/-! ## What the visited sections come to -/

def sectorsStop (visited : List Descriptor) : Option UInt64 :=
  (visited.filter (kindIs .sectors)).getLast?.map Descriptor.stop

def chunksAt (bytes : ByteArray) (segment number : Nat) : List ChunkLocation :=
  if (descriptor bytes number).kind = .table then
    locationsOf bytes segment (sectorsStop (sections bytes number)) (descriptor bytes number)
  else []

def chunks (bytes : ByteArray) (segment count : Nat) : List ChunkLocation :=
  (List.range count).flatMap (chunksAt bytes segment)

def gathered (bytes : ByteArray) (segment count : Nat) : Gathered where
  volume := ((sections bytes count).find? (kindIs .volume)).map (volumeOf bytes)
  chunks := (chunks bytes segment count).toArray
  header := ((sections bytes count).find? (kindIs (.header false))).map (caseInfoOf bytes false)
  wideHeader := ((sections bytes count).find? (kindIs (.header true))).map (caseInfoOf bytes true)
  sectorsEnd := sectorsStop (sections bytes count)

theorem toList_chunks (bytes : ByteArray) (segment count : Nat) :
    (gathered bytes segment count).chunks.toList = chunks bytes segment count := rfl

theorem find?_kindIs_concat (kind : SectionKind) (visited : List Descriptor) (d : Descriptor) :
    (visited ++ [d]).find? (kindIs kind) =
      (visited.find? (kindIs kind)).or (if d.kind = kind then some d else none) := by
  rw [List.find?_append, List.find?_singleton, kindIs]
  simp only [decide_eq_true_eq]

theorem sectorsStop_concat (visited : List Descriptor) (d : Descriptor) :
    sectorsStop (visited ++ [d]) =
      if d.kind = .sectors then some d.stop else sectorsStop visited := by
  rw [sectorsStop, sectorsStop, List.filter_append]
  by_cases kind : d.kind = .sectors
  · rw [if_pos kind, List.filter_cons_of_pos (by simp [kindIs, kind]), List.filter_nil,
      List.getLast?_concat]
    rfl
  · rw [if_neg kind, List.filter_cons_of_neg (by simp [kindIs, kind]), List.filter_nil,
      List.append_nil]

theorem chunks_succ (bytes : ByteArray) (segment count : Nat) :
    chunks bytes segment (count + 1) =
      chunks bytes segment count ++ chunksAt bytes segment count := by
  rw [chunks, chunks, List.range_succ, List.flatMap_append, List.flatMap_singleton]

theorem gathered_succ (bytes : ByteArray) (segment count : Nat) :
    gathered bytes segment (count + 1) =
      takeIn bytes segment (gathered bytes segment count) (descriptor bytes count) := by
  unfold gathered
  rw [sections_succ, chunks_succ, chunksAt]
  simp only [find?_kindIs_concat, sectorsStop_concat]
  unfold takeIn
  cases kind : (descriptor bytes count).kind with
  | header wide => cases wide <;> simp
  | volume => simp
  | sectors => simp
  | table => simp
  | last => simp
  | other => simp

theorem isSome_volume_gathered (bytes : ByteArray) (segment count : Nat) :
    (gathered bytes segment count).volume.isSome =
      (sections bytes count).any (kindIs .volume) := by
  rw [gathered, Option.isSome_map, Bool.eq_iff_iff, List.find?_isSome, List.any_eq_true]

section Faults

variable (refusal : Option IoError) (bytes : ByteArray)

def faultAt? (number : Nat) : Option ContainerError :=
  (unreadable? refusal (offset bytes number) Descriptor.length).or
    (fault? refusal bytes ((sections bytes number).any (kindIs .volume)) (descriptor bytes number))

def firstFault? (count : Nat) : Option ContainerError :=
  (List.range count).findSome? (faultAt? refusal bytes)

theorem firstFault?_eq_none_iff (count : Nat) :
    firstFault? refusal bytes count = none ↔
      ∀ number < count, faultAt? refusal bytes number = none := by
  rw [firstFault?, List.findSome?_eq_none_iff]
  simp only [List.mem_range]

/-- The section of a number cannot be read whole. -/
def Flawed (number : Nat) : Prop :=
  unreadable? refusal (offset bytes number) Descriptor.length ≠ none ∨
    flaw? refusal bytes ((sections bytes number).any (kindIs .volume)) (descriptor bytes number) ≠
      none

instance (number : Nat) : Decidable (Flawed refusal bytes number) :=
  inferInstanceAs (Decidable (_ ∨ _))

theorem faultAt?_of_not_flawed {number : Nat} (whole : ¬Flawed refusal bytes number) :
    faultAt? refusal bytes number =
      if overruns bytes (descriptor bytes number) then some .overflow else none := by
  obtain ⟨readable, sound⟩ := not_or.mp whole
  rw [faultAt?, Decidable.of_not_not readable, Option.none_or, fault?, Decidable.of_not_not sound,
    Option.none_or]

theorem not_flawed_of_faultAt? {number : Nat} (sound : faultAt? refusal bytes number = none) :
    ¬Flawed refusal bytes number := by
  rw [faultAt?, fault?, Option.or_eq_none_iff, Option.or_eq_none_iff] at sound
  rintro (unread | flawed)
  · exact unread sound.1
  · exact flawed sound.2.1

end Faults

theorem stop_of_fields {bytes : ByteArray} {count : Nat}
    (small : bytes.size < FileStore.offsetLimit) (fits : ∀ number < count, Fits bytes number)
    (sizes : ∀ number < count, (descriptor bytes number).size.toNat < FileStore.offsetLimit)
    {number : Nat} (visited : number < count) :
    (descriptor bytes number).overflows = false ∧ (descriptor bytes number).stop.toNat =
      offset bytes number + (descriptor bytes number).size.toNat := by
  have limit : FileStore.offsetLimit = 2 ^ 63 := by decide
  have wrap : UInt64.size = 2 ^ 64 := rfl
  have place : offset bytes number + Descriptor.length ≤ bytes.size := fits number visited
  have own := sizes number visited
  have start : (descriptor bytes number).offset.toNat = offset bytes number :=
    toNat_place bytes number
  refine ⟨decide_eq_false (by omega), ?_⟩
  rw [Descriptor.stop, UInt64.toNat_add, start, Nat.mod_eq_of_lt (by omega)]

/-- The places of all chunks of a table are numbers. -/
def Counted (bytes : ByteArray) (d : Descriptor) : Prop :=
  ∀ entry ∈ Table.entries (tableEntries bytes d),
    (tableBase bytes d).toNat + (Table.distance entry).toNat < UInt64.size

instance (bytes : ByteArray) (d : Descriptor) : Decidable (Counted bytes d) :=
  List.decidableBAll _ _

theorem any_overflows_eq_false_iff (bytes : ByteArray) (d : Descriptor) :
    (Table.entries (tableEntries bytes d)).any (Table.overflows (tableBase bytes d)) = false ↔
      Counted bytes d := by
  simp [Counted, Table.overflows]

theorem overruns_eq_false_iff {bytes : ByteArray} {d : Descriptor} (ends : d.overflows = false) :
    overruns bytes d = false ↔ (d.kind = .table → Counted bytes d) := by
  unfold overruns
  cases kind : d.kind with
  | sectors => simp [ends]
  | table => simpa using any_overflows_eq_false_iff bytes d
  | header wide => simp
  | volume => simp
  | last => simp
  | other => simp

/-! ## The walk -/

def walked (refusal : Option IoError) (bytes : ByteArray) (segment count : Nat) :
    Except ContainerError Gathered :=
  outcome (firstFault? refusal bytes count) (gathered bytes segment count)

def visitAt (store : FileStore) (id segment : Nat) (bytes : ByteArray) (number : Nat)
    (before : Gathered) : Except ContainerError Gathered :=
  (outcome (unreadable? (store.refusal (.file id)) (offset bytes number) Descriptor.length)
    (descriptor bytes number)).bind (visit store (.file id) segment before)

section Walk

variable {store : FileStore} {id : Nat} {bytes : ByteArray} (content : store.content id = bytes)

include content

theorem walked_succ (segment count : Nat) :
    walked (store.refusal (.file id)) bytes segment (count + 1) =
      (walked (store.refusal (.file id)) bytes segment count).bind
        (visitAt store id segment bytes count) := by
  rw [walked, walked, firstFault?, List.range_succ, List.findSome?_append, ← firstFault?,
    List.findSome?_singleton]
  cases firstFault? (store.refusal (.file id)) bytes count with
  | some cause => rfl
  | none =>
    rw [Option.none_or, faultAt?, outcome_or _ _ (descriptor bytes count),
      ← isSome_volume_gathered bytes segment, gathered_succ, outcome_none, bind_ok, visitAt]
    cases unreadable? (store.refusal (.file id)) (offset bytes count) Descriptor.length with
    | some cause => rw [outcome_some, bind_error, bind_error]
    | none => rw [outcome_none, bind_ok, bind_ok, visit_file content]

omit content in
theorem toNat_size (short : bytes.size < UInt64.size) :
    (UInt64.ofNat bytes.size).toNat = bytes.size := by
  rw [UInt64.toNat_ofNat', Nat.mod_eq_of_lt short]

omit content in
theorem walkFrom_past_end {number : Nat} (short : bytes.size < UInt64.size)
    (reach : offset bytes number + Descriptor.length < UInt64.size) (ended : ¬Fits bytes number)
    (segment limit : Nat) (before : Gathered) :
    walkFrom store (.file id) segment (UInt64.ofNat bytes.size) limit
      (UInt64.ofNat (offset bytes number)) before = .ok before := by
  cases limit with
  | zero => rfl
  | succ limit =>
    have past : bytes.size < offset bytes number + Descriptor.length := Nat.not_le.mp ended
    rw [walkFrom, toNat_place, toNat_size short]
    dsimp only
    rw [if_neg (Nat.not_le.mpr reach), if_pos past]

theorem walkFrom_at {number : Nat} (short : bytes.size < UInt64.size) (fits : Fits bytes number)
    (segment limit : Nat) (before : Gathered) :
    walkFrom store (.file id) segment (UInt64.ofNat bytes.size) (limit + 1)
        (UInt64.ofNat (offset bytes number)) before =
      (visitAt store id segment bytes number before).bind fun after =>
        if LeadsOn bytes number then
          walkFrom store (.file id) segment (UInt64.ofNat bytes.size) limit
            (UInt64.ofNat (offset bytes (number + 1))) after
        else .ok after := by
  have fits : offset bytes number + Descriptor.length ≤ bytes.size := fits
  have counted : ¬UInt64.size ≤ offset bytes number + Descriptor.length := by omega
  have next : UInt64.ofNat (offset bytes (number + 1)) = (descriptor bytes number).next :=
    UInt64.ofNat_toNat
  have forward : (descriptor bytes number).next ≤ UInt64.ofNat (offset bytes number) ↔
      ¬offset bytes number < offset bytes (number + 1) := by
    rw [UInt64.le_iff_toNat_le, toNat_place, Nat.not_lt]
    rfl
  rw [walkFrom, toNat_place, toNat_size short]
  dsimp only
  rw [if_neg counted, if_neg (Nat.not_lt.mpr fits), readBytes_file content, visitAt, next]
  cases unreadable? (store.refusal (.file id)) (offset bytes number) Descriptor.length with
  | some cause => rfl
  | none =>
    dsimp only [outcome, Except.bind]
    rw [← descriptorAt, ← descriptor]
    cases visit store (.file id) segment before (descriptor bytes number) with
    | error cause => rfl
    | ok after =>
      dsimp only
      by_cases last : (descriptor bytes number).kind = .last
      · rw [if_pos last, if_neg fun leads => leads.1 last]
      · rw [if_neg last]
        by_cases stays : (descriptor bytes number).next ≤ UInt64.ofNat (offset bytes number)
        · rw [if_pos stays, if_neg fun leads => forward.mp stays leads.2]
        · rw [if_neg stays, if_pos ⟨last, Decidable.of_not_not fun no => stays (forward.mpr no)⟩]

theorem walkFrom_start {count : Nat} (short : bytes.size < UInt64.size)
    (there : ∀ number < count, Fits bytes number ∧ LeadsOn bytes number) (segment limit : Nat) :
    walkFrom store (.file id) segment (UInt64.ofNat bytes.size) (count + limit)
        (UInt64.ofNat fileHeaderSize) {} =
      (walked (store.refusal (.file id)) bytes segment count).bind
        (walkFrom store (.file id) segment (UInt64.ofNat bytes.size) limit
          (UInt64.ofNat (offset bytes count))) := by
  induction count generalizing limit with
  | zero =>
    rw [Nat.zero_add]
    rfl
  | succ count ih =>
    have earlier := ih (fun number below => there number (Nat.lt_succ_of_lt below)) (limit + 1)
    obtain ⟨fits, leads⟩ := there count (Nat.lt_succ_self count)
    rw [Nat.add_right_comm, Nat.add_assoc, earlier, walked_succ content]
    cases walked (store.refusal (.file id)) bytes segment count with
    | error cause => rfl
    | ok before =>
      dsimp only [Except.bind]
      rw [walkFrom_at content short fits]
      simp only [if_pos leads]
      rfl

/-- A walk comes to what the sections before the cut come to. -/
theorem walkFrom_cut {limit count : Nat} (short : bytes.size < UInt64.size)
    (cut : Cut bytes limit count)
    (reach : ∀ number < count, LeadsOn bytes number →
      offset bytes (number + 1) + Descriptor.length < UInt64.size) (segment : Nat) :
    walkFrom store (.file id) segment (UInt64.ofNat bytes.size) limit
      (UInt64.ofNat fileHeaderSize) {} = walked (store.refusal (.file id)) bytes segment count := by
  cases count with
  | zero =>
    by_cases none : limit = 0
    · rw [none]
      rfl
    · have past : ¬Fits bytes 0 := by
        intro fits
        obtain ⟨last, same, -⟩ := cut.stops (Nat.pos_of_ne_zero none) fits
        cases same
      have near : offset bytes 0 + Descriptor.length < UInt64.size :=
        (by decide : fileHeaderSize + Descriptor.length < UInt64.size)
      exact walkFrom_past_end short near past segment limit {}
  | succ last =>
    -- All sections but the last lead on; the last one decides whether the walk goes further.
    obtain ⟨left, rfl⟩ := Nat.exists_eq_add_of_le' cut.le_limit
    have fits := cut.fits last (Nat.lt_succ_self last)
    have before : ∀ number < last, Fits bytes number ∧ LeadsOn bytes number := fun number below =>
      ⟨cut.fits number (Nat.lt_succ_of_lt below), cut.leads number (Nat.succ_lt_succ below)⟩
    have start := walkFrom_start content short before segment (left + 1)
    rw [Nat.add_left_comm] at start
    rw [start, walked_succ content]
    cases walked (store.refusal (.file id)) bytes segment last with
    | error cause => rfl
    | ok gathered =>
      rw [bind_ok, bind_ok, walkFrom_at content short fits]
      cases visitAt store id segment bytes last gathered with
      | error cause => rw [bind_error]
      | ok after =>
        rw [bind_ok]
        by_cases leads : LeadsOn bytes last
        · rw [if_pos leads]
          cases left with
          | zero => rfl
          | succ left =>
            have past : ¬Fits bytes (last + 1) := by
              intro more
              obtain ⟨own, same, stays⟩ := cut.stops (by omega) more
              cases same
              exact stays leads
            have near := reach last (Nat.lt_succ_self last) leads
            exact walkFrom_past_end short near past segment (left + 1) after
        · rw [if_neg leads]

theorem foldlM_visit {count : Nat}
    (readable : ∀ number < count, unreadable? (store.refusal (.file id)) (offset bytes number)
      Descriptor.length = none)
    (segment : Nat) :
    (sections bytes count).foldlM (visit store (.file id) segment) {} =
      walked (store.refusal (.file id)) bytes segment count := by
  induction count with
  | zero => rfl
  | succ count ih =>
    have earlier := ih fun number below => readable number (Nat.lt_succ_of_lt below)
    rw [sections_succ, List.foldlM_append, earlier, walked_succ content]
    simp only [List.foldlM_cons, List.foldlM_nil, bind_pure]
    cases walked (store.refusal (.file id)) bytes segment count with
    | error cause =>
      rw [bind_error]
      rfl
    | ok before =>
      rw [bind_ok, visitAt, readable count (Nat.lt_succ_self count), outcome_none, bind_ok]
      exact bind_ok before fun now => visit store (.file id) segment now (descriptor bytes count)

theorem walkSections_of_fields {count : Nat} (small : bytes.size < FileStore.offsetLimit)
    (cut : Cut bytes maxSections count)
    (places : ∀ number < count, (descriptor bytes number).next.toNat < FileStore.offsetLimit)
    (segment : Nat) :
    walkSections store (.file id) segment =
      walked (store.refusal (.file id)) bytes segment count := by
  have limit : FileStore.offsetLimit = 2 ^ 63 := by decide
  have wrap : UInt64.size = 2 ^ 64 := rfl
  have width : Descriptor.length = 76 := rfl
  have size : store.length (.file id) = bytes.size := congrArg ByteArray.size content
  have reach : ∀ number < count, LeadsOn bytes number →
      offset bytes (number + 1) + Descriptor.length < UInt64.size := by
    intro number visited leads
    have next : offset bytes (number + 1) < FileStore.offsetLimit := places number visited
    omega
  rw [walkSections, size]
  exact walkFrom_cut content (by omega) cut reach segment

/-- A walk over any file whose numbers are file positions. The sections that it visits are
determined by the file, and so is all that it gathers from them, exactly if the places of all
chunks in the visited tables are numbers. -/
theorem walk_gathers_chain_iff (small : bytes.size < FileStore.offsetLimit) (segment : Nat) :
    ∃ count, Cut bytes maxSections count ∧
      (∀ other, Cut bytes maxSections other → other = count) ∧
      (∀ number later, number < later → later < count →
        offset bytes number < offset bytes later) ∧
      ((∀ number < count, (descriptor bytes number).next.toNat < FileStore.offsetLimit ∧
          (descriptor bytes number).size.toNat < FileStore.offsetLimit) →
        (∀ number < count, (descriptor bytes number).stop.toNat =
          offset bytes number + (descriptor bytes number).size.toNat) ∧
        (store.refusal (.file id) = none → walkSections store (.file id) segment =
          (sections bytes count).foldlM (visit store (.file id) segment) {}) ∧
        (walkSections store (.file id) segment =
          match firstFault? (store.refusal (.file id)) bytes count with
          | some cause => .error cause
          | none => .ok (gathered bytes segment count)) ∧
        ((∀ number < count, ¬Flawed (store.refusal (.file id)) bytes number) →
          (walkSections store (.file id) segment = .ok (gathered bytes segment count) ↔
            ∀ number < count, (descriptor bytes number).kind = .table →
              Counted bytes (descriptor bytes number)) ∧
          (walkSections store (.file id) segment = .ok (gathered bytes segment count) ∨
            walkSections store (.file id) segment = .error .overflow))) := by
  have limit : FileStore.offsetLimit = 2 ^ 63 := by decide
  have width : Descriptor.length = 76 := rfl
  obtain ⟨count, cut⟩ := exists_cut bytes maxSections
  have inside : ∀ number < count, offset bytes number + Descriptor.length ≤ bytes.size := cut.fits
  refine ⟨count, cut, fun other => cut.unique,
    fun number later less visited => cut.offset_lt_offset less visited, ?_⟩
  intro fields
  have walk := walkSections_of_fields content small cut
    (fun number visited => (fields number visited).1) segment
  have stops := fun number (visited : number < count) =>
    stop_of_fields small cut.fits (fun number below => (fields number below).2) visited
  refine ⟨fun number visited => (stops number visited).2, fun granted => ?_, walk, fun whole => ?_⟩
  · rw [walk, foldlM_visit content]
    intro number visited
    have place := inside number visited
    rw [unreadable?, if_neg (by decide), if_neg (by omega), granted]
    rfl
  · have sound : firstFault? (store.refusal (.file id)) bytes count = none ↔
        ∀ number < count, (descriptor bytes number).kind = .table →
          Counted bytes (descriptor bytes number) := by
      rw [firstFault?_eq_none_iff]
      refine forall₂_congr fun number visited => ?_
      rw [faultAt?_of_not_flawed _ _ (whole number visited),
        ← overruns_eq_false_iff (stops number visited).1]
      simp
    cases fault : firstFault? (store.refusal (.file id)) bytes count with
    | none =>
      have gathers :
          walkSections store (.file id) segment = .ok (gathered bytes segment count) := by
        rw [walk, walked, fault, outcome_none]
      exact ⟨iff_of_true gathers (sound.mp fault), .inl gathers⟩
    | some cause =>
      -- Of sections without a flaw only an overrun is left as a fault.
      obtain ⟨number, visited, failed⟩ := List.exists_of_findSome?_eq_some fault
      rw [faultAt?_of_not_flawed _ _ (whole number (List.mem_range.mp visited))] at failed
      split at failed
      · cases failed
        have fails : walkSections store (.file id) segment = .error .overflow := by
          rw [walk, walked, fault, outcome_some]
        refine ⟨iff_of_false ?_ ?_, .inr fails⟩
        · rw [fails]
          exact nofun
        · rw [← sound, fault]
          exact nofun
      · cases failed

end Walk

/-! ## A chain without an end -/

/-- The last section names itself as the next one. -/
def unended : ByteArray :=
  Acquisition.fileHeader 0 ++ Content.laidOut fileHeaderSize
    [⟨"sectors", zeros 8⟩, ⟨"table", tableSection 0 [89, 93]⟩, ⟨"table", tableSection 0 [90]⟩]

def unendedStore : FileStore := { FileStore.blank with contents := #[unended] }

theorem numbers_unended :
    unended.size = 309 ∧
      (∀ number < 3, Fits unended number ∧
        (descriptor unended number).next.toNat < FileStore.offsetLimit ∧
        (descriptor unended number).size.toNat < FileStore.offsetLimit) ∧
      (∀ number < 2, LeadsOn unended number) ∧ ¬LeadsOn unended 2 ∧
      firstFault? none unended 3 = none ∧
      chunks unended 0 3 =
        [⟨0, 89, false, some 4⟩, ⟨0, 93, false, some 4⟩, ⟨0, 90, false, some 7⟩] := by
  decide +kernel

theorem walk_gathers_unended :
    unendedStore.content 0 = unended ∧ unended.size < FileStore.offsetLimit ∧
      Cut unended maxSections 3 ∧ unendedStore.refusal (.file 0) = none ∧
      (∀ number < 3, ¬Flawed none unended number) ∧
      (∀ number < 3, (descriptor unended number).kind = .table →
        Counted unended (descriptor unended number)) ∧
      ∃ taken, walkSections unendedStore (.file 0) 0 = .ok taken ∧
        taken.chunks.toList =
          [⟨0, 89, false, some 4⟩, ⟨0, 93, false, some 4⟩, ⟨0, 90, false, some 7⟩] := by
  obtain ⟨size, fields, leads, stays, sound, listed⟩ := numbers_unended
  have content : unendedStore.content 0 = unended := rfl
  have granted : unendedStore.refusal (.file 0) = none := rfl
  have small : unended.size < FileStore.offsetLimit := by
    rw [size]
    decide
  have cut : Cut unended maxSections 3 :=
    ⟨by decide, fun number below => (fields number below).1,
      fun number below => leads number (by omega), fun _ _ => ⟨2, rfl, stays⟩⟩
  have whole : ∀ number < 3, ¬Flawed none unended number := fun number below =>
    not_flawed_of_faultAt? _ _ ((firstFault?_eq_none_iff _ _ _).mp sound number below)
  obtain ⟨count, -, only, -, walks⟩ := walk_gathers_chain_iff content small 0
  have three : 3 = count := only 3 cut
  subst three
  obtain ⟨-, -, walk, gathers⟩ := walks fun number below => (fields number below).2
  rw [granted, sound] at walk
  have within := (gathers whole).1.mp walk
  exact ⟨content, small, cut, granted, whole, within, gathered unended 0 3, walk,
    (toList_chunks unended 0 3).trans listed⟩

def basedFile (base entry : Nat) : ByteArray :=
  Acquisition.fileHeader 0 ++ Content.laidOut fileHeaderSize
    [⟨"volume", volumeSection 1 1 8 1⟩, ⟨"table", tableSection base [entry]⟩, ⟨"done", .empty⟩]

def far : ByteArray := basedFile 0xFFFFFFFFFFFFFFFF 14

def farStore : FileStore := { FileStore.blank with contents := #[far] }

/-- No section has a flaw, and still the walk does not come to what they hold. -/
theorem walk_overflows_at_far_table :
    farStore.content 0 = far ∧ far.size < FileStore.offsetLimit ∧ Cut far maxSections 3 ∧
      (∀ number < 3, ¬Flawed (farStore.refusal (.file 0)) far number ∧
        (descriptor far number).next.toNat < FileStore.offsetLimit ∧
        (descriptor far number).size.toNat < FileStore.offsetLimit) ∧
      walkSections farStore (.file 0) 0 = .error .overflow ∧
      walkSections farStore (.file 0) 0 ≠ .ok (gathered far 0 3) := by
  have content : farStore.content 0 = far := rfl
  have small : far.size < FileStore.offsetLimit := by decide +kernel
  have sections : (∀ number < 3, Fits far number) ∧ (∀ number < 2, LeadsOn far number) ∧
      ¬LeadsOn far 2 := by decide +kernel
  obtain ⟨fits, leads, stays⟩ := sections
  have cut : Cut far maxSections 3 :=
    ⟨by decide, fits, fun number below => leads number (by omega), fun _ _ => ⟨2, rfl, stays⟩⟩
  have fields : ∀ number < 3, ¬Flawed none far number ∧
      (descriptor far number).next.toNat < FileStore.offsetLimit ∧
      (descriptor far number).size.toNat < FileStore.offsetLimit := by decide +kernel
  have fault : firstFault? none far 3 = some .overflow := by decide +kernel
  have walk : walkSections farStore (.file 0) 0 = .error .overflow := by
    rw [walkSections_of_fields content small cut (fun number below => (fields number below).2.1) 0]
    exact congrArg (outcome · (gathered far 0 3)) fault
  refine ⟨content, small, cut, fields, walk, ?_⟩
  rw [walk]
  exact nofun

end SectionChain

end EvidencePages.Ewf

import EvidencePages.Proofs.Ewf.SegmentWalk

/-!
# What a cut segment tells

A segment file that is cut somewhere tells the volume if it is the first one
and the cut leaves it, and locates the chunks whose entries the cut leaves. It
is refused where the cut falls into the fields of the volume or of the table.
-/

set_option autoImplicit false

namespace EvidencePages.Ewf.Acquisition

variable {a : Acquisition} {store : FileStore} {id length segment : Nat}

variable (a) in
/-- How many entries of a segment's table a cut to `length` bytes leaves. -/
def kept (segment length : Nat) : Nat :=
  min (a.held segment) ((length - a.entriesOffset segment) / Table.entryLength)

theorem kept_le (segment length : Nat) : a.kept segment length ≤ a.held segment :=
  Nat.min_le_left _ _

theorem kept_size (segment : Nat) :
    a.kept segment (a.segmentFile segment).size = a.held segment := by
  have four : Table.entryLength = 4 := rfl
  rw [kept, size_segmentFile, four]
  omega

theorem table_fields (small : a.held segment < 1 <<< 32) :
    numberAt (slice (a.table segment).data 0 Table.headerLength) 0 4 = a.held segment ∧
      numberAt (slice (a.table segment).data 0 Table.headerLength) 8 8 = 0 := by
  have width : Table.headerLength = 24 := rfl
  constructor
  · rw [numberAt_slice (by omega)]
    exact numberAt_of_slice (slice_front rfl _) small
  · rw [numberAt_slice (by omega)]
    apply numberAt_of_slice _ (by decide)
    rw [table, ← ByteArray.append_assoc]
    exact slice_middle (by simp [littleEndianBytes_length]) rfl _

theorem table_entries {count : Nat} (inside : count ≤ Table.entryLength * a.held segment) :
    slice (a.table segment).data Table.headerLength count =
      slice (a.entryBytes segment (a.held segment)) 0 count := by
  have split : (a.table segment).data =
      (ofBytes (littleEndianBytes 4 (a.held segment)) ++ zeros 4 ++
        ofBytes (littleEndianBytes 8 0) ++ zeros 8) ++
          (a.entryBytes segment (a.held segment) ++ zeros 4) := by
    rw [table, ByteArray.append_assoc, ByteArray.append_assoc, ByteArray.append_assoc]
  have size : (ofBytes (littleEndianBytes 4 (a.held segment)) ++ zeros 4 ++
      ofBytes (littleEndianBytes 8 0) ++ zeros 8).size = Table.headerLength := by
    simp [littleEndianBytes_length, Table.headerLength]
  rw [split, ← size, ← Nat.add_zero (ByteArray.size _), slice_append_right,
    slice_append_left (by rw [size_entryBytes]; omega)]

theorem any_overflows_entries (segment count : Nat) :
    ((List.range count).map (a.entry segment)).any (Table.overflows 0) = false := by
  rw [List.any_eq_false]
  intro entry _
  rw [Table.not_overflows_zero entry]
  exact Bool.false_ne_true

theorem readTable_table (inflates : ∀ data, Zlib.decode? (a.deflate data) = some data)
    (keeping : Keeping store id (a.segmentFile segment) length) {rest : List Content}
    (stands : Stands (a.segmentFile segment) (a.sectorsStop segment) (a.table segment :: rest))
    (part next : Nat) :
    readTable store (.file id) part (some (UInt64.ofNat (a.sectorsStop segment)))
        ((a.table segment).descriptorAt (a.sectorsStop segment) next) =
      if length < a.entriesOffset segment then .error (.invalid .tableTruncated)
      else .ok (a.located part segment (a.kept segment length)) := by
  have small := stands_small keeping stands
  have own : (a.table segment).size = Descriptor.length + (a.table segment).data.size := rfl
  have size := size_table (a := a) segment
  have four : Table.entryLength = 4 := rfl
  have fields : Table.headerLength = 24 := rfl
  rw [four] at size
  have offset : a.entriesOffset segment = a.sectorsStop segment + Descriptor.length +
    Table.headerLength := rfl
  have front : 0 + Table.headerLength ≤ (a.table segment).data.size := by omega
  have header := stands.readBytes keeping front
  rw [Nat.add_zero] at header
  rw [readTable, toNat_dataOffset small, header]
  dsimp only
  rw [size_slice]
  -- A cut through the fields is an error; a later one leaves the entries before it.
  by_cases cut : length < a.entriesOffset segment
  · rw [if_pos cut, if_pos (by omega)]
  have whole : min Table.headerLength (length - (a.sectorsStop segment + Descriptor.length)) =
      Table.headerLength := by omega
  have narrow : a.held segment < 1 <<< 32 := by
    rw [Nat.one_shiftLeft] at small ⊢
    omega
  obtain ⟨count, address⟩ := table_fields narrow
  have room : min (UInt32.ofNat (a.held segment)).toNat
      (((a.table segment).data.size - Table.headerLength) / Table.entryLength) =
        a.held segment := by
    rw [Nat.one_shiftLeft] at small
    rw [UInt32.toNat_ofNat', Nat.mod_eq_of_lt (by omega), four]
    omega
  have reach : (((a.table segment).descriptorAt (a.sectorsStop segment) next).dataOffset +
      UInt64.ofNat Table.headerLength).toNat = a.entriesOffset segment := by
    rw [Nat.one_shiftLeft] at small
    rw [UInt64.toNat_add, toNat_dataOffset (by rw [Nat.one_shiftLeft]; exact small)]
    exact Nat.mod_eq_of_lt (Nat.lt_of_le_of_lt (Nat.le_of_eq offset.symm) (by omega))
  have behind : Table.headerLength + a.held segment * Table.entryLength ≤
      (a.table segment).data.size := by
    rw [four]
    omega
  have entries := stands.readBytes keeping behind
  rw [← offset] at entries
  rw [if_neg cut, whole, if_neg (by omega), dataSize_descriptorAt small, u32At, u64At, count,
    address, room, reach, entries, table_entries (by rw [four]; omega)]
  dsimp only
  have left : min (a.held segment) (min (a.held segment * Table.entryLength)
      (length - a.entriesOffset segment) / Table.entryLength) = a.kept segment length := by
    rw [kept, four]
    omega
  have base : UInt64.ofNat 0 = 0 := rfl
  rw [Table.locations, entries_of_cut, left, base, any_overflows_entries,
    if_neg Bool.false_ne_true, withExtents_entries inflates (kept_le segment length) (by omega)]

theorem visit_table (inflates : ∀ data, Zlib.decode? (a.deflate data) = some data)
    (keeping : Keeping store id (a.segmentFile segment) length) {rest : List Content}
    (stands : Stands (a.segmentFile segment) (a.sectorsStop segment) (a.table segment :: rest))
    (part next : Nat) {gathered : Gathered}
    (bound : gathered.sectorsEnd = some (UInt64.ofNat (a.sectorsStop segment))) :
    visit store (.file id) part gathered
        ((a.table segment).descriptorAt (a.sectorsStop segment) next) =
      if length < a.entriesOffset segment then .error (.invalid .tableTruncated)
      else .ok { gathered with
        chunks := gathered.chunks ++ a.located part segment (a.kept segment length) } := by
  have taken : ((a.table segment).descriptorAt (a.sectorsStop segment) next).kind = .table :=
    kind_table segment
  unfold visit
  rw [taken]
  dsimp only
  rw [bound, readTable_table inflates keeping stands]
  by_cases cut : length < a.entriesOffset segment
  · rw [if_pos cut, if_pos cut]
  · rw [if_neg cut, if_neg cut]

/-! ## Whole walks -/

variable (a) in
def volumeStop : Nat :=
  fileHeaderSize + (⟨"header", a.deflate a.headerText⟩ : Content).size + Descriptor.length +
    Volume.length

variable (a) in
def told (segment length : Nat) : Option Volume :=
  if segment = 0 ∧ a.volumeStop ≤ length then some a.volume else none

variable (a) in
/-- A cut through the file header, or through the fields of the volume or of the table behind a
whole descriptor. -/
def Refused (segment length : Nat) : Prop :=
  length < fileHeaderSize ∨
    segment = 0 ∧ a.volumeStop ≤ length + Volume.length ∧ length < a.volumeStop ∨
    a.sectorsStop segment + Descriptor.length ≤ length ∧ length < a.entriesOffset segment

variable (a) in
def Walked (part segment length : Nat) (volume : Option Volume) :
    Except ContainerError Gathered → Prop
  | .ok gathered => gathered.volume = volume ∧
      gathered.chunks.toList = a.located part segment (a.kept segment length)
  | .error _ => a.Refused segment length

theorem kept_of_cut (cut : length < a.entriesOffset segment) : a.kept segment length = 0 := by
  rw [kept, Nat.sub_eq_zero_of_le (Nat.le_of_lt cut), Nat.zero_div, Nat.min_zero]

theorem told_of_cut (cut : length < a.volumeStop) : a.told segment length = none :=
  if_neg (fun h => Nat.not_le_of_lt cut h.2)

theorem walked_before {volume : Option Volume} {gathered : Gathered} (part : Nat)
    (told : gathered.volume = volume) (empty : gathered.chunks = #[])
    (cut : length < a.entriesOffset segment) :
    a.Walked part segment length volume (.ok gathered) := by
  refine ⟨told, ?_⟩
  rw [empty, kept_of_cut cut]
  rfl

theorem walked_tail (inflates : ∀ data, Zlib.decode? (a.deflate data) = some data)
    (keeping : Keeping store id (a.segmentFile segment) length)
    (stands : Stands (a.segmentFile segment) (a.sectorsOffset segment)
      [a.sectors segment, a.table segment, a.ending segment])
    (part : Nat) {gathered : Gathered} (empty : gathered.chunks = #[]) :
    a.Walked part segment length gathered.volume
      (gather store (.file id) part length (a.sectorsOffset segment)
        [a.sectors segment, a.table segment, a.ending segment] gathered) := by
  have behind := stands.tail
  have stop := sectorsStop_eq (a := a) segment
  have sectors : (a.sectors segment).size = Descriptor.length + (a.sectors segment).data.size := rfl
  have offset : a.entriesOffset segment =
    a.sectorsStop segment + Descriptor.length + Table.headerLength := rfl
  have size := size_segmentFile (a := a) segment
  rw [← stop] at behind
  rw [gather]
  by_cases first : length < a.sectorsOffset segment + Descriptor.length
  · rw [if_pos first]
    exact walked_before part rfl empty (by omega)
  rw [if_neg first, visit_sectors (stands_small keeping stands) (kind_sectors segment), ← stop]
  dsimp only
  rw [gather]
  by_cases second : length < a.sectorsStop segment + Descriptor.length
  · rw [if_pos second]
    exact walked_before part rfl empty (by omega)
  rw [if_neg second, visit_table inflates keeping behind part _ rfl]
  by_cases fields : length < a.entriesOffset segment
  · rw [if_pos fields]
    exact .inr (.inr ⟨Nat.not_lt.mp second, fields⟩)
  rw [if_neg fields]
  have chunks : (gathered.chunks ++ a.located part segment (a.kept segment length)).toList =
      a.located part segment (a.kept segment length) := by
    rw [empty]
    simp
  dsimp only
  rw [gather]
  by_cases third : length < a.sectorsStop segment + (a.table segment).size + Descriptor.length
  · rw [if_pos third]
    exact ⟨rfl, chunks⟩
  · rw [if_neg third, visit_last (kind_ending segment)]
    exact ⟨rfl, chunks⟩

theorem stands_contents (segment : Nat) :
    Stands (a.segmentFile segment) fileHeaderSize (a.contents segment) :=
  ⟨fileHeader segment, size_fileHeader segment, rfl⟩

theorem ended_contents (segment : Nat) : Content.Ended (a.contents segment) := by
  have tail : Content.Ended [a.sectors segment, a.table segment, a.ending segment] := by
    simp [Content.Ended]
  unfold contents leading
  split
  · simp [Content.Ended]
  · exact tail

theorem sectorsOffset_zero : a.sectorsOffset 0 =
    fileHeaderSize + (⟨"header", a.deflate a.headerText⟩ : Content).size +
      (⟨"volume", a.volumeData⟩ : Content).size := by
  have leading : a.leading 0 =
    [⟨"header", a.deflate a.headerText⟩, ⟨"volume", a.volumeData⟩] := rfl
  rw [sectorsOffset, leading, Content.totalSize_cons, Content.totalSize_cons,
    Content.totalSize_nil]
  omega

theorem volumeStop_le_sectorsOffset : a.volumeStop ≤ a.sectorsOffset 0 := by
  have data : (⟨"volume", a.volumeData⟩ : Content).size = Descriptor.length + 94 := by
    rw [Content.size, size_volumeData]
  rw [sectorsOffset_zero, data, volumeStop, Volume.length]
  omega

theorem walked_first (fits : a.Fits)
    (inflates : ∀ data, Zlib.decode? (a.deflate data) = some data)
    (keeping : Keeping store id (a.segmentFile 0) length) (part : Nat) :
    a.Walked part 0 length (a.told 0 length)
      (gather store (.file id) part length fileHeaderSize (a.contents 0) {}) := by
  have stop : a.volumeStop = fileHeaderSize +
      (⟨"header", a.deflate a.headerText⟩ : Content).size + Descriptor.length +
        Volume.length := rfl
  have sectors := volumeStop_le_sectorsOffset (a := a)
  have entries : a.entriesOffset 0 = a.sectorsOffset 0 + (a.sectors 0).size +
      Descriptor.length + Table.headerLength := by
    rw [entriesOffset, sectorsStop_eq]
  have listed : a.contents 0 = ⟨"header", a.deflate a.headerText⟩ ::
      ⟨"volume", a.volumeData⟩ :: [a.sectors 0, a.table 0, a.ending 0] := rfl
  have stands := stands_contents (a := a) 0
  rw [listed] at stands ⊢
  have second := stands.tail
  have third := second.tail
  rw [← sectorsOffset_zero] at third
  rw [gather]
  -- The header and the volume are the sections that a cut may leave without a table.
  by_cases headless : length < fileHeaderSize + Descriptor.length
  · rw [if_pos headless, told_of_cut (by omega)]
    exact walked_before part rfl rfl (by omega)
  obtain ⟨header, visited⟩ := visit_header keeping stands (kind_header _) part {}
  rw [if_neg headless, visited]
  dsimp only
  rw [gather]
  by_cases before : length < fileHeaderSize +
      (⟨"header", a.deflate a.headerText⟩ : Content).size + Descriptor.length
  · rw [if_pos before, told_of_cut (by omega)]
    exact walked_before part rfl rfl (by omega)
  have wide : Volume.length ≤ (⟨"volume", a.volumeData⟩ : Content).data.size := by
    rw [size_volumeData]
    decide
  rw [if_neg before, visit_volume keeping second (kind_volume _) wide part _ rfl, ← stop]
  by_cases cut : length < a.volumeStop
  · rw [if_pos cut]
    exact .inr (.inl ⟨rfl, by omega, cut⟩)
  · have told : a.told 0 length = some a.volume := if_pos ⟨rfl, Nat.not_lt.mp cut⟩
    rw [if_neg cut, parse_volumeData fits.chunks, told, ← sectorsOffset_zero]
    exact walked_tail inflates keeping third part rfl

theorem walked_later (later : segment ≠ 0)
    (inflates : ∀ data, Zlib.decode? (a.deflate data) = some data)
    (keeping : Keeping store id (a.segmentFile segment) length) (part : Nat) :
    a.Walked part segment length (a.told segment length)
      (gather store (.file id) part length fileHeaderSize (a.contents segment) {}) := by
  have stands := stands_contents (a := a) segment
  have leading : a.leading segment = [] := if_neg later
  have told : a.told segment length = none := if_neg (fun h => later h.1)
  have start : a.sectorsOffset segment = fileHeaderSize := by
    rw [sectorsOffset, leading]
    rfl
  have listed : a.contents segment = [a.sectors segment, a.table segment, a.ending segment] := by
    rw [contents, leading]
    rfl
  rw [listed, ← start] at stands
  rw [listed, told, ← start]
  exact walked_tail inflates keeping stands part rfl

theorem walkSections_cut (fits : a.Fits)
    (inflates : ∀ data, Zlib.decode? (a.deflate data) = some data)
    (keeping : Keeping store id (a.segmentFile segment) length) (part : Nat) :
    a.Walked part segment length (a.told segment length)
      (walkSections store (.file id) part) := by
  have count : (a.contents segment).length ≤ maxSections := by
    unfold contents leading
    split <;> simp [maxSections]
  have more : a.contents segment ≠ [] := by simp [contents]
  rw [walkSections, keeping.length_eq, walkFrom_eq_gather keeping (stands_contents segment)
    (ended_contents segment) part count {} more]
  rcases Nat.eq_zero_or_pos segment with rfl | later
  · exact walked_first fits inflates keeping part
  · exact walked_later (Nat.ne_of_gt later) inflates keeping part

theorem checkFileHeader_cut (keeping : Keeping store id (a.segmentFile segment) length)
    (part : Nat) :
    checkFileHeader store (.file id) part =
      if length < fileHeaderSize then .error (.invalid (.segmentTooSmall (part + 1)))
      else .ok () := by
  have size := size_segmentFile (a := a) segment
  have bound := keeping.length_le
  have width : fileHeaderSize = 13 := rfl
  rw [checkFileHeader, keeping.readBytes (by decide)]
  dsimp only
  rw [size_slice, Nat.sub_zero]
  by_cases cut : length < fileHeaderSize
  · rw [if_pos cut, if_pos (by omega)]
  have found :
      (slice (slice (a.segmentFile segment) 0 (min fileHeaderSize length)) 0 8).data.toList =
        signature := by
    have eight : (ofBytes signature).size = 8 := rfl
    rw [Nat.min_eq_left (by omega), segmentFile, slice_front (size_fileHeader segment), fileHeader,
      ofBytes_append, slice_front eight, toList_ofBytes]
  rw [if_neg cut, if_neg (by omega), found]
  rfl

end EvidencePages.Ewf.Acquisition

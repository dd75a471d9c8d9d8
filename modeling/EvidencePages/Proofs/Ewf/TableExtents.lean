import EvidencePages.Proofs.Ewf.LongChains

/-!
# Stored extents of a table

A table locates as many chunks as it declares, as its section has room for and
as the file holds entries, whichever is least. A chunk is stored from its place
up to the next one's, or to the end of the sectors, where these lie behind it.
The extents of places that increase up to the end of the sectors are thus
adjacent, from the first place to that end.
-/

set_option autoImplicit false

namespace EvidencePages.Ewf

/-! ## Bounds -/

theorem Table.extent_eq_some_iff (offset : UInt64) (bound : Option UInt64) (length : UInt64) :
    extent offset bound = some length ↔
      ∃ stop, bound = some stop ∧ offset < stop ∧
        offset.toNat + length.toNat = stop.toNat := by
  cases bound with
  | none => simp [extent]
  | some stop =>
    rw [extent]
    constructor
    · intro found
      split at found
      · rename_i before
        cases found
        have order : offset.toNat < stop.toNat := UInt64.lt_iff_toNat_lt.mp before
        refine ⟨stop, rfl, before, ?_⟩
        rw [UInt64.toNat_sub_of_le _ _ (UInt64.le_of_lt before)]
        omega
      · cases found
    · rintro ⟨found, same, before, sum⟩
      cases same
      have order : offset.toNat < stop.toNat := UInt64.lt_iff_toNat_lt.mp before
      rw [if_pos before, Option.some_inj]
      apply UInt64.toNat_inj.mp
      rw [UInt64.toNat_sub_of_le _ _ (UInt64.le_of_lt before)]
      omega

theorem Table.entry_of_locations {segment : Nat} {base : UInt64} {stop : Option UInt64}
    {raw : ByteArray} {place : Nat} {location : ChunkLocation}
    (listed : (locations segment base stop raw)[place]? = some location) :
    { location with stored := none } =
      entryAt segment base (u32At raw (entryLength * place)) := by
  have plain : (locations segment base stop raw).map (fun location => { location with
      stored := none }) = (entries raw).map (entryAt segment base) := by
    rw [locations, map_withExtents stop _ (fun _ _ => rfl), List.map_map]
    rfl
  have found := congrArg (·[place]?) plain
  have inside := (List.getElem?_eq_some_iff.mp listed).1
  rw [length_locations] at inside
  simp only [List.getElem?_map, listed, entries, List.getElem?_range inside, Option.map_some,
    Option.some_inj] at found
  exact found

/-- What bounds the chunk at a place of a table: the next location, or the end of the sectors. -/
def Table.bound? (sectorsEnd : Option UInt64) (locations : List ChunkLocation) (place : Nat) :
    Option UInt64 :=
  (locations[place + 1]?.map (·.offset)).or sectorsEnd

def Table.Bounded (sectorsEnd : Option UInt64) (locations : List ChunkLocation) : Prop :=
  ∀ place location, locations[place]? = some location →
    location.stored = extent location.offset (bound? sectorsEnd locations place)

theorem Table.bounded_withExtents (sectorsEnd : Option UInt64) (locations : List ChunkLocation) :
    Bounded sectorsEnd (withExtents sectorsEnd locations) := by
  fun_induction withExtents sectorsEnd locations with
  | case1 => exact nofun
  | case2 location =>
    intro place found there
    cases place with
    | zero =>
      cases there
      rfl
    | succ place => cases there
  | case3 location next rest ih =>
    intro place found there
    cases place with
    | zero =>
      cases there
      cases rest <;> rfl
    | succ place => exact ih place found there

theorem Table.Bounded.tail {sectorsEnd : Option UInt64} {location : ChunkLocation}
    {rest : List ChunkLocation} (bounded : Bounded sectorsEnd (location :: rest)) :
    Bounded sectorsEnd rest :=
  fun place found there => bounded (place + 1) found there

/-! ## Tilings -/

def ChunkLocation.Covers (location : ChunkLocation) (offset : Nat) : Prop :=
  ∃ length, location.stored = some length ∧ location.offset.toNat ≤ offset ∧
    offset < location.offset.toNat + length.toNat

namespace Table

def CoveredAt (locations : List ChunkLocation) (offset place : Nat) : Prop :=
  ∃ location, locations[place]? = some location ∧ location.Covers offset

/-- The extents lie one behind the other, from `start` to `stop`. -/
def Tiled (stop : Nat) : Nat → List ChunkLocation → Prop
  | start, [] => start = stop
  | start, location :: rest => location.offset.toNat = start ∧
      ∃ length, location.stored = some length ∧ Tiled stop (start + length.toNat) rest

theorem Tiled.start_le_stop {stop start : Nat} {locations : List ChunkLocation}
    (tiled : Tiled stop start locations) : start ≤ stop := by
  induction locations generalizing start with
  | nil => exact Nat.le_of_eq tiled
  | cons location rest ih =>
    obtain ⟨-, length, -, tiled⟩ := tiled
    exact Nat.le_trans (Nat.le_add_right _ _) (ih tiled)

theorem Tiled.bounds {stop start : Nat} {locations : List ChunkLocation}
    (tiled : Tiled stop start locations) {offset place : Nat}
    (covered : CoveredAt locations offset place) : start ≤ offset ∧ offset < stop := by
  induction locations generalizing start place with
  | nil =>
    obtain ⟨location, there, -⟩ := covered
    cases there
  | cons first rest ih =>
    obtain ⟨begins, length, stored, tiled⟩ := tiled
    have behind := tiled.start_le_stop
    obtain ⟨location, there, covers⟩ := covered
    cases place with
    | zero =>
      cases there
      obtain ⟨reach, found, lower, upper⟩ := covers
      cases stored.symm.trans found
      omega
    | succ place =>
      have inside := ih tiled ⟨location, there, covers⟩
      omega

/-- Extents one behind the other leave nothing out and do not overlap. -/
theorem Tiled.exists_only {stop start : Nat} {locations : List ChunkLocation}
    (tiled : Tiled stop start locations) {offset : Nat} (lower : start ≤ offset)
    (upper : offset < stop) :
    ∃ place, ∀ other, CoveredAt locations offset other ↔ other = place := by
  induction locations generalizing start with
  | nil => exact absurd upper (Nat.not_lt.mpr (Nat.le_trans (Nat.le_of_eq tiled.symm) lower))
  | cons first rest ih =>
    obtain ⟨begins, length, stored, tiled⟩ := tiled
    by_cases inside : offset < start + length.toNat
    · refine ⟨0, fun other => ?_⟩
      cases other with
      | zero => exact iff_of_true ⟨first, rfl, length, stored, by omega, by omega⟩ rfl
      | succ other =>
        have apart : ¬CoveredAt rest offset other := fun covered =>
          absurd (tiled.bounds covered).1 (Nat.not_le.mpr inside)
        exact iff_of_false apart (Nat.succ_ne_zero other)
    · obtain ⟨place, only⟩ := ih tiled (Nat.not_lt.mp inside)
      refine ⟨place + 1, fun other => ?_⟩
      cases other with
      | zero =>
        refine iff_of_false ?_ (Nat.succ_ne_zero place).symm
        rintro ⟨location, there, reach, found, -, short⟩
        cases there
        cases stored.symm.trans found
        omega
      | succ other => exact (only other).trans Nat.succ_inj.symm

theorem Bounded.tiled {stop : UInt64} {first last : ChunkLocation} {rest : List ChunkLocation}
    (bounded : Bounded (some stop) (first :: rest))
    (increasing : (first :: rest).Pairwise fun before after => before.offset < after.offset)
    (ends : (first :: rest).getLast? = some last) (before : last.offset < stop) :
    Tiled stop.toNat first.offset.toNat (first :: rest) := by
  induction rest generalizing first with
  | nil =>
    cases ends
    have reach : extent first.offset (some stop) = some (stop - first.offset) := if_pos before
    obtain ⟨_, same, -, sum⟩ := (extent_eq_some_iff _ _ _).mp reach
    cases same
    exact ⟨rfl, _, (bounded 0 first rfl).trans reach, sum⟩
  | cons next rest ih =>
    obtain ⟨least, increasing⟩ := List.pairwise_cons.mp increasing
    have order := least next (List.mem_cons_self ..)
    have reach : extent first.offset (some next.offset) = some (next.offset - first.offset) :=
      if_pos order
    obtain ⟨_, same, -, sum⟩ := (extent_eq_some_iff _ _ _).mp reach
    cases same
    rw [List.getLast?_cons_cons] at ends
    exact ⟨rfl, _, (bounded 0 first rfl).trans reach, sum ▸ ih bounded.tail increasing ends⟩

end Table

/-! ## Tables that are read -/

namespace SectionChain

theorem unreadable?_eq_none (refusal : Option IoError) (start length : Nat) :
    unreadable? refusal start length = none ↔
      length = 0 ∨ start + length < FileStore.offsetLimit ∧ refusal = none := by
  unfold unreadable?
  by_cases none : length = 0
  · simp [none]
  by_cases outside : FileStore.offsetLimit ≤ start + length
  · simp [none, outside, Nat.not_lt.mpr outside]
  · simp [none, outside, Nat.not_le.mp outside]

theorem truncated?_eq_none (bytes : ByteArray) (stop : Nat) (defect : Defect) :
    truncated? bytes stop defect = none ↔ stop ≤ bytes.size := by
  unfold truncated?
  split <;> simp <;> omega

theorem length_locationsOf (bytes : ByteArray) (segment : Nat) (stop : Option UInt64)
    (d : Descriptor) :
    (locationsOf bytes segment stop d).length =
      min (u32At bytes d.dataOffset.toNat).toNat
        (min ((d.dataSize - Table.headerLength) / Table.entryLength)
          ((bytes.size - (d.dataOffset.toNat + Table.headerLength)) / Table.entryLength)) := by
  have four : Table.entryLength = 4 := rfl
  rw [locationsOf, Table.length_locations, tableEntries, size_slice, entryCount, four]
  omega

theorem entry_of_locationsOf {bytes : ByteArray} {segment : Nat} {stop : Option UInt64}
    {d : Descriptor} {place : Nat} {location : ChunkLocation}
    (listed : (locationsOf bytes segment stop d)[place]? = some location) :
    { location with stored := none } =
      Table.entryAt segment (u64At bytes (d.dataOffset.toNat + 8))
        (u32At bytes
          (d.dataOffset.toNat + Table.headerLength + Table.entryLength * place)) := by
  have four : Table.entryLength = 4 := rfl
  have inside := (List.getElem?_eq_some_iff.mp listed).1
  rw [length_locationsOf, four] at inside
  rw [Table.entry_of_locations listed, tableEntries, u32At_slice, tableBase]
  rw [entryCount, four]
  omega

structure TableReadable (bytes : ByteArray) (d : Descriptor) : Prop where
  header_position : d.dataOffset.toNat + Table.headerLength < FileStore.offsetLimit
  header_there : d.dataOffset.toNat + Table.headerLength ≤ bytes.size
  entries_position : entryCount bytes d = 0 ∨ d.dataOffset.toNat + Table.headerLength +
    entryCount bytes d * Table.entryLength < FileStore.offsetLimit

instance (bytes : ByteArray) (d : Descriptor) : Decidable (TableReadable bytes d) :=
  decidable_of_iff (_ ∧ _ ∧ _)
    ⟨fun ⟨a, b, c⟩ => ⟨a, b, c⟩, fun ⟨a, b, c⟩ => ⟨a, b, c⟩⟩

theorem readTable_eq (store : FileStore) (id segment : Nat) (stop : Option UInt64)
    (d : Descriptor) :
    readTable store (.file id) segment stop d =
      outcome ((flaw? (store.refusal (.file id)) (store.content id) false
          { d with kind := .table }).or
            (if Counted (store.content id) d then none else some .overflow))
        (locationsOf (store.content id) segment stop d) := by
  have table : readTable store (.file id) segment stop d =
      outcome (fault? (store.refusal (.file id)) (store.content id) false { d with kind := .table })
        (locationsOf (store.content id) segment stop d) :=
    readTable_file rfl segment stop (d := { d with kind := .table }) rfl false
  have counted : overruns (store.content id) { d with kind := .table } = false ↔
      Counted (store.content id) d := any_overflows_eq_false_iff (store.content id) d
  rw [table, fault?]
  by_cases all : Counted (store.content id) d
  · rw [counted.mpr all, if_neg Bool.false_ne_true, if_pos all]
  · rw [Bool.of_not_eq_false fun none => all (counted.mp none), if_pos rfl, if_neg all]

theorem flaw?_table_eq_none_iff (refusal : Option IoError) (bytes : ByteArray) (d : Descriptor) :
    flaw? refusal bytes false { d with kind := .table } = none ↔
      refusal = none ∧ TableReadable bytes d := by
  have wide : Table.headerLength ≠ 0 := by decide
  have four : Table.entryLength ≠ 0 := by decide
  rw [flaw?]
  simp only [Option.or_eq_none_iff, unreadable?_eq_none, truncated?_eq_none, wide, false_or,
    Nat.mul_eq_zero, four, or_false]
  constructor
  · rintro ⟨⟨position, granted⟩, there, entries⟩
    exact ⟨granted, position, there, entries.imp_right And.left⟩
  · rintro ⟨granted, position, there, entries⟩
    exact ⟨⟨position, granted⟩, there, entries.imp_right fun inside => ⟨inside, granted⟩⟩

theorem readTable_eq_ok_iff (store : FileStore) (id segment : Nat) (stop : Option UInt64)
    (d : Descriptor) (locations : List ChunkLocation) :
    readTable store (.file id) segment stop d = .ok locations ↔
      (store.refusal (.file id) = none ∧ TableReadable (store.content id) d ∧
          Counted (store.content id) d) ∧
        locationsOf (store.content id) segment stop d = locations := by
  have whole := flaw?_table_eq_none_iff (store.refusal (.file id)) (store.content id) d
  rw [readTable_eq, ← and_assoc (b := TableReadable _ _), ← whole]
  cases flaw? (store.refusal (.file id)) (store.content id) false { d with kind := .table } with
  | some cause => simp
  | none => by_cases all : Counted (store.content id) d <;> simp [all]

theorem readTable_overflows_iff (store : FileStore) (id segment : Nat) (stop : Option UInt64)
    (d : Descriptor) :
    readTable store (.file id) segment stop d = .error .overflow ↔
      store.refusal (.file id) = none ∧ TableReadable (store.content id) d ∧
        ¬Counted (store.content id) d := by
  have whole := flaw?_table_eq_none_iff (store.refusal (.file id)) (store.content id) d
  rw [readTable_eq, ← and_assoc, ← whole]
  cases flaw : flaw? (store.refusal (.file id)) (store.content id) false
      { d with kind := .table } with
  | some cause =>
    have shown := isFatal_of_flaw? flaw
    refine iff_of_false ?_ fun both => Option.some_ne_none cause both.1
    intro beyond
    cases beyond
    cases shown
  | none => by_cases all : Counted (store.content id) d <;> simp [all]

end SectionChain

/-- A table in a file of any content is read if its header and its entries can be and the places of
its chunks are numbers, and the number of its locations is the least of three. A location has an
extent exactly if it has a bound behind it, and reaches to that bound. So locations that increase up
to the end of the sectors have extents of which exactly one holds each offset from the first
location to that end, and none any other. -/
theorem extents_of_readTable (store : FileStore) (id segment : Nat) (sectorsEnd : Option UInt64)
    (d : Descriptor) :
    ((∃ locations, readTable store (.file id) segment sectorsEnd d = .ok locations) ↔
      store.refusal (.file id) = none ∧ SectionChain.TableReadable (store.content id) d ∧
        SectionChain.Counted (store.content id) d) ∧
      (readTable store (.file id) segment sectorsEnd d = .error .overflow ↔
        store.refusal (.file id) = none ∧ SectionChain.TableReadable (store.content id) d ∧
          ¬SectionChain.Counted (store.content id) d) ∧
      ∀ locations, readTable store (.file id) segment sectorsEnd d = .ok locations →
        locations.length = min (u32At (store.content id) d.dataOffset.toNat).toNat
          (min ((d.dataSize - Table.headerLength) / Table.entryLength)
            (((store.content id).size - (d.dataOffset.toNat + Table.headerLength)) /
              Table.entryLength)) ∧
        (∀ place location, locations[place]? = some location →
          { location with stored := none } =
            Table.entryAt segment (u64At (store.content id) (d.dataOffset.toNat + 8))
              (u32At (store.content id)
                (d.dataOffset.toNat + Table.headerLength + Table.entryLength * place)) ∧
          ∀ length, location.stored = some length ↔
            ∃ bound, Table.bound? sectorsEnd locations place = some bound ∧
              location.offset < bound ∧
              location.offset.toNat + length.toNat = bound.toNat) ∧
        ∀ first last stop, locations.head? = some first → locations.getLast? = some last →
          sectorsEnd = some stop →
          (locations.Pairwise fun before after => before.offset < after.offset) →
          last.offset < stop →
          ∀ offset,
            (first.offset.toNat ≤ offset ∧ offset < stop.toNat →
              ∃ place, ∀ other, Table.CoveredAt locations offset other ↔ other = place) ∧
            ∀ place, Table.CoveredAt locations offset place →
              first.offset.toNat ≤ offset ∧ offset < stop.toNat := by
  have read := SectionChain.readTable_eq_ok_iff store id segment sectorsEnd d
  refine ⟨?_, SectionChain.readTable_overflows_iff store id segment sectorsEnd d, ?_⟩
  · simp only [read, exists_and_left, exists_eq', and_true]
  · intro locations found
    obtain ⟨-, rfl⟩ := (read locations).mp found
    have bounded : Table.Bounded sectorsEnd
        (SectionChain.locationsOf (store.content id) segment sectorsEnd d) :=
      Table.bounded_withExtents _ _
    refine ⟨SectionChain.length_locationsOf _ _ _ _, ?_, ?_⟩
    · intro place location listed
      refine ⟨SectionChain.entry_of_locationsOf listed, fun length => ?_⟩
      rw [bounded place location listed, Table.extent_eq_some_iff]
    · intro first last stop begins ends known increasing before offset
      obtain ⟨rest, whole⟩ := List.head?_eq_some_iff.mp begins
      rw [whole] at bounded increasing ends ⊢
      subst known
      have tiled := bounded.tiled increasing ends before
      exact ⟨fun ⟨lower, upper⟩ => tiled.exists_only lower upper,
        fun _ covered => tiled.bounds covered⟩

/-- A table that declares five entries, in a section with room for four, of which three and a part
are in the file. -/
def cutTable : FileStore where
  entries := []
  contents := #[zeros Descriptor.length ++ ofBytes (
    littleEndianBytes 8 5 ++ littleEndianBytes 16 1000 ++ littleEndianBytes 4 16 ++
    littleEndianBytes 4 (1 <<< 31 + 32) ++ littleEndianBytes 4 37 ++ [0xFF, 0xFF])]
  workingDirectory := []

def cutTableDescriptor : Descriptor where
  kind := .table
  offset := 0
  next := 0
  size := 116

def cutTableLocations : List ChunkLocation :=
  [⟨0, 1016, false, some 16⟩, ⟨0, 1032, true, some 5⟩, ⟨0, 1037, false, some 13⟩]

theorem extents_of_cutTable :
    readTable cutTable (.file 0) 0 (some 1050) cutTableDescriptor = .ok cutTableLocations ∧
      cutTableLocations.length = 3 ∧
      (∀ length, some (13 : UInt64) = some length ↔
        ∃ bound, Table.bound? (some 1050) cutTableLocations 2 = some bound ∧
          (1037 : UInt64) < bound ∧ (1037 : UInt64).toNat + length.toNat = bound.toNat) ∧
      (cutTableLocations.Pairwise fun before after => before.offset < after.offset) ∧
      (∃ place, ∀ other, Table.CoveredAt cutTableLocations 1036 other ↔ other = place) ∧
      ∀ place, ¬Table.CoveredAt cutTableLocations 1050 place := by
  have read : readTable cutTable (.file 0) 0 (some 1050) cutTableDescriptor =
      .ok cutTableLocations :=
    (SectionChain.readTable_eq_ok_iff ..).mpr
      ⟨⟨rfl, by decide +kernel, by decide +kernel⟩, by decide +kernel⟩
  have increasing :
      cutTableLocations.Pairwise fun before after => before.offset < after.offset := by decide
  obtain ⟨-, -, all⟩ := extents_of_readTable cutTable 0 0 (some 1050) cutTableDescriptor
  obtain ⟨count, each, tiles⟩ := all _ read
  have tiled := tiles ⟨0, 1016, false, some 16⟩ ⟨0, 1037, false, some 13⟩ 1050 rfl rfl rfl
    increasing (by decide)
  refine ⟨read, rfl, (each 2 _ rfl).2, increasing, ?_, ?_⟩
  · exact (tiled 1036).1 ⟨by decide, by decide⟩
  · intro place covered
    exact absurd ((tiled 1050).2 place covered).2 (by decide)

def farTable : FileStore where
  entries := []
  contents := #[zeros Descriptor.length ++ tableSection 0xFFFFFFFFFFFFFFFF [1]]
  workingDirectory := []

def farTableDescriptor : Descriptor where
  kind := .table
  offset := 0
  next := 0
  size := 104

/-- The table can be read, and still it gives no locations. -/
theorem no_extents_of_farTable :
    farTable.refusal (.file 0) = none ∧
      SectionChain.TableReadable (farTable.content 0) farTableDescriptor ∧
      SectionChain.entryCount (farTable.content 0) farTableDescriptor = 1 ∧
      readTable farTable (.file 0) 0 none farTableDescriptor = .error .overflow ∧
      ∀ locations, readTable farTable (.file 0) 0 none farTableDescriptor ≠ .ok locations := by
  have readable : SectionChain.TableReadable (farTable.content 0) farTableDescriptor := by
    decide +kernel
  have beyond : ¬SectionChain.Counted (farTable.content 0) farTableDescriptor := by decide +kernel
  have stopped : readTable farTable (.file 0) 0 none farTableDescriptor = .error .overflow :=
    (SectionChain.readTable_overflows_iff ..).mpr ⟨rfl, readable, beyond⟩
  refine ⟨rfl, readable, by decide +kernel, stopped, fun locations => ?_⟩
  rw [stopped]
  exact nofun

end EvidencePages.Ewf

import EvidencePages.Proofs.Ewf.FullReads
import EvidencePages.Proofs.Ewf.SectionChain
import EvidencePages.Proofs.Ewf.SegmentWalk

/-!
# Tables of long chains

A walk takes in ten thousand sections at most. Of a chain that comes to its
end inside the file, the tables among these sections are listed in order, or
there is a cause why not. Tables that stand further on are left out, and no
cause is given for that.
-/

set_option autoImplicit false

namespace EvidencePages.Ewf

theorem Table.length_locations (segment : Nat) (base : UInt64) (stop : Option UInt64)
    (raw : ByteArray) :
    (Table.locations segment base stop raw).length = raw.size / Table.entryLength := by
  have kept := congrArg List.length
    (Table.map_withExtents stop (·.segment) (fun _ _ => rfl)
      ((Table.entries raw).map (Table.entryAt segment base)))
  simpa [Table.locations, Table.entries] using kept

namespace SectionChain

/-! ## Chains that end -/

/-- The chain goes forward, inside the file, to a section that says it is the last. -/
structure Ends (bytes : ByteArray) (last : Nat) : Prop where
  fits : ∀ number ≤ last, Fits bytes number
  leads : ∀ number < last, LeadsOn bytes number
  ended : (descriptor bytes last).kind = .last

namespace Ends

variable {bytes : ByteArray} {last : Nat}

theorem cut (ends : Ends bytes last) (limit : Nat) : Cut bytes limit (min (last + 1) limit) where
  le_limit := Nat.min_le_right _ _
  fits number below := ends.fits number (by omega)
  leads number below := ends.leads number (by omega)
  stops less _ := ⟨last, by omega, fun leads => leads.1 ends.ended⟩

theorem walkSections_eq (ends : Ends bytes last) {store : FileStore} {id : Nat}
    (content : store.content id = bytes) (short : bytes.size < UInt64.size) (segment : Nat) :
    walkSections store (.file id) segment =
      walked (store.refusal (.file id)) bytes segment (min (last + 1) maxSections) := by
  have size : store.length (.file id) = bytes.size := congrArg ByteArray.size content
  have reach : ∀ number < min (last + 1) maxSections, LeadsOn bytes number →
      offset bytes (number + 1) + Descriptor.length < UInt64.size := by
    intro number below leads
    have inner : number ≠ last := by
      rintro rfl
      exact leads.1 ends.ended
    have next : offset bytes (number + 1) + Descriptor.length ≤ bytes.size :=
      ends.fits (number + 1) (by omega)
    omega
  rw [walkSections, size]
  exact walkFrom_cut content short (ends.cut maxSections) reach segment

end Ends

theorem chunks_eq_append (bytes : ByteArray) (segment : Nat) {count total : Nat}
    (le : count ≤ total) : chunks bytes segment total =
      chunks bytes segment count ++
        (List.range' count (total - count)).flatMap (chunksAt bytes segment) := by
  obtain ⟨more, rfl⟩ := Nat.exists_eq_add_of_le le
  rw [chunks, chunks, List.range_add, List.flatMap_append, Nat.add_sub_cancel_left,
    ← List.range'_eq_map_range]

theorem chunks_eq_iff (bytes : ByteArray) (segment : Nat) {count total : Nat}
    (le : count ≤ total) : chunks bytes segment count = chunks bytes segment total ↔
      ∀ number, count ≤ number → number < total → chunksAt bytes segment number = [] := by
  rw [chunks_eq_append bytes segment le, List.self_eq_append_right, List.flatMap_eq_nil_iff]
  simp only [List.mem_range'_1]
  constructor
  · intro empty number past below
    exact empty number ⟨past, by omega⟩
  · intro empty number inside
    exact empty number inside.1 (by omega)

/-! ## Causes of faults -/

section Causes

variable {refusal : Option IoError} {bytes : ByteArray} {cause : ContainerError}

theorem isFatal_of_unreadable? {start length : Nat}
    (unread : unreadable? refusal start length = some cause) : cause.isFatal = false := by
  unfold unreadable? at unread
  split at unread
  · cases unread
  split at unread
  · cases unread
    rfl
  · cases refusal <;> cases unread
    rfl

theorem isFatal_of_truncated? {stop : Nat} {defect : Defect}
    (cut : truncated? bytes stop defect = some cause) : cause.isFatal = false := by
  unfold truncated? at cut
  split at cut <;> cases cut
  rfl

theorem isFatal_of_flaw? {seen : Bool} {d : Descriptor}
    (flaw : flaw? refusal bytes seen d = some cause) : cause.isFatal = false := by
  unfold flaw? at flaw
  cases kind : d.kind with
  | header wide =>
    rw [kind] at flaw
    exact isFatal_of_unreadable? flaw
  | volume =>
    rw [kind] at flaw
    dsimp only at flaw
    split at flaw
    · cases flaw
    · rcases Option.or_eq_some_iff.mp flaw with first | ⟨-, second⟩
      · exact isFatal_of_unreadable? first
      · exact isFatal_of_truncated? second
  | table =>
    rw [kind] at flaw
    rcases Option.or_eq_some_iff.mp flaw with first | ⟨-, later⟩
    · exact isFatal_of_unreadable? first
    · rcases Option.or_eq_some_iff.mp later with second | ⟨-, third⟩
      · exact isFatal_of_truncated? second
      · exact isFatal_of_unreadable? third
  | sectors =>
    rw [kind] at flaw
    cases flaw
  | last =>
    rw [kind] at flaw
    cases flaw
  | other =>
    rw [kind] at flaw
    cases flaw

theorem isFatal_of_firstFault? {count : Nat} (fault : firstFault? refusal bytes count = some cause)
    (counted : cause ≠ .overflow) : cause.isFatal = false := by
  obtain ⟨number, -, failed⟩ := List.exists_of_findSome?_eq_some fault
  rcases Option.or_eq_some_iff.mp failed with unread | ⟨-, failed⟩
  · exact isFatal_of_unreadable? unread
  rcases Option.or_eq_some_iff.mp failed with flaw | ⟨-, beyond⟩
  · exact isFatal_of_flaw? flaw
  · split at beyond
    · exact absurd (Option.some.inj beyond).symm counted
    · cases beyond

theorem not_overflow_of_firstFault? {count : Nat}
    (counted : ∀ number < count, overruns bytes (descriptor bytes number) = false) :
    firstFault? refusal bytes count ≠ some .overflow := by
  intro fault
  obtain ⟨number, listed, failed⟩ := List.exists_of_findSome?_eq_some fault
  rcases Option.or_eq_some_iff.mp failed with unread | ⟨-, failed⟩
  · exact absurd (isFatal_of_unreadable? unread) (by decide)
  rcases Option.or_eq_some_iff.mp failed with flaw | ⟨-, beyond⟩
  · exact absurd (isFatal_of_flaw? flaw) (by decide)
  · rw [counted number (List.mem_range.mp listed)] at beyond
    cases beyond

end Causes

/-! ## Tables that are listed -/

/-- All tables of the chain, or a cause. -/
def ListsTables (bytes : ByteArray) (segment count : Nat) :
    Except ContainerError Gathered → Prop
  | .error cause => cause.isFatal = false
  | .ok taken => taken.chunks.toList = chunks bytes segment count

theorem listsTables_walked_iff {refusal : Option IoError} {bytes : ByteArray} {count : Nat}
    (sound : firstFault? refusal bytes count = none) (segment total : Nat) :
    ListsTables bytes segment total (walked refusal bytes segment count) ↔
      chunks bytes segment count = chunks bytes segment total := by
  rw [walked, sound, outcome_none, ListsTables, toList_chunks]

/-- Of a chain that ends, the tables among the first sections are listed unless there is a cause,
and so are all tables, unless one that lists something stands further on. This is told of walks
that meet no place behind the last number. -/
theorem lists_tables_within_limit {store : FileStore} {id : Nat} {bytes : ByteArray} {last : Nat}
    (content : store.content id = bytes) (short : bytes.size < UInt64.size) (ends : Ends bytes last)
    (counted : firstFault? (store.refusal (.file id)) bytes (min (last + 1) maxSections) ≠
      some .overflow) (segment : Nat) :
    ListsTables bytes segment (min (last + 1) maxSections)
        (walkSections store (.file id) segment) ∧
      (ListsTables bytes segment (last + 1) (walkSections store (.file id) segment) ↔
        (∃ number < min (last + 1) maxSections,
          faultAt? (store.refusal (.file id)) bytes number ≠ none) ∨
          ∀ number, maxSections ≤ number → number ≤ last →
            chunksAt bytes segment number = []) := by
  have within : min (last + 1) maxSections ≤ last + 1 := Nat.min_le_left _ _
  have sound := firstFault?_eq_none_iff (store.refusal (.file id)) bytes
    (min (last + 1) maxSections)
  rw [ends.walkSections_eq content short]
  cases fault : firstFault? (store.refusal (.file id)) bytes (min (last + 1) maxSections) with
  | some cause =>
    have failed : ¬∀ number < min (last + 1) maxSections,
        faultAt? (store.refusal (.file id)) bytes number = none := by
      intro all
      rw [sound.mpr all] at fault
      cases fault
    obtain ⟨number, failed⟩ := Classical.not_forall.mp failed
    obtain ⟨below, failed⟩ := Classical.not_imp.mp failed
    have shown : cause.isFatal = false := by
      refine isFatal_of_firstFault? fault ?_
      rintro rfl
      exact counted fault
    rw [walked, fault]
    exact ⟨shown, iff_of_true shown (.inl ⟨number, below, failed⟩)⟩
  | none =>
    have none : ¬∃ number < min (last + 1) maxSections,
        faultAt? (store.refusal (.file id)) bytes number ≠ none := by
      rintro ⟨number, below, failed⟩
      exact failed (sound.mp fault number below)
    rw [or_iff_right none, listsTables_walked_iff fault, listsTables_walked_iff fault,
      chunks_eq_iff bytes segment within]
    refine ⟨rfl, fun empty number past inside => ?_, fun empty number past inside => ?_⟩
    · exact empty number (by omega) (by omega)
    · exact empty number (by omega) (by omega)

/-! ## Sections laid out one after another -/

theorem stands_behind {bytes : ByteArray} {offset : Nat} {before rest : List Content}
    (stands : Stands bytes offset (before ++ rest)) :
    Stands bytes (offset + Content.totalSize before) rest := by
  induction before generalizing offset with
  | nil => exact stands
  | cons content before ih =>
    rw [Content.totalSize_cons, ← Nat.add_assoc]
    exact ih stands.tail

theorem descriptorAt_stands {bytes : ByteArray} {offset : Nat} {content : Content}
    {rest : List Content} (stands : Stands bytes offset (content :: rest))
    (short : bytes.size < UInt64.size) : descriptorAt bytes offset =
      content.descriptorAt offset (if rest.isEmpty then offset else offset + content.size) := by
  have size := stands.size_eq
  have wrap : UInt64.size = 2 ^ 64 := rfl
  rw [Content.totalSize_cons] at size
  have reach : (if rest.isEmpty then offset else offset + content.size) < 1 <<< 64 := by
    rw [Nat.one_shiftLeft]
    split <;> omega
  have fits : content.size < 1 <<< 64 := by
    rw [Nat.one_shiftLeft]
    omega
  rw [descriptorAt, stands.descriptor, content.parse_descriptor reach fits]
  rfl

theorem offset_succ_stands {bytes : ByteArray} {number : Nat} {content : Content}
    {rest : List Content} (stands : Stands bytes (offset bytes number) (content :: rest))
    (more : rest ≠ []) (short : bytes.size < UInt64.size) :
    offset bytes (number + 1) = offset bytes number + content.size := by
  have size := stands.size_eq
  have wrap : UInt64.size = 2 ^ 64 := rfl
  rw [Content.totalSize_cons] at size
  rw [offset, descriptorAt_stands stands short, List.isEmpty_eq_false_iff.mpr more,
    Content.descriptorAt]
  dsimp only
  rw [if_neg Bool.false_ne_true, UInt64.toNat_ofNat', Nat.mod_eq_of_lt (by omega)]

structure LaidOut (bytes : ByteArray) (contents : List Content) : Prop where
  stands : Stands bytes fileHeaderSize contents
  short : bytes.size < UInt64.size

namespace LaidOut

variable {bytes : ByteArray} {contents : List Content}

theorem behind (laid : LaidOut bytes contents) (number : Nat) :
    Stands bytes (fileHeaderSize + Content.totalSize (contents.take number))
      (contents.drop number) := by
  apply stands_behind
  rw [List.take_append_drop]
  exact laid.stands

theorem offset_eq (laid : LaidOut bytes contents) {number : Nat} (h : number < contents.length) :
    offset bytes number = fileHeaderSize + Content.totalSize (contents.take number) := by
  induction number with
  | zero => rfl
  | succ number ih =>
    have before : number < contents.length := Nat.lt_of_succ_lt h
    have stands := laid.behind number
    rw [← ih before, List.drop_eq_getElem_cons before] at stands
    have more : contents.drop (number + 1) ≠ [] := by
      rw [ne_eq, List.drop_eq_nil_iff]
      omega
    rw [offset_succ_stands stands more laid.short, ih before,
      List.take_succ_eq_append_getElem before, Content.totalSize_append, Content.totalSize_cons,
      Content.totalSize_nil, Nat.add_zero, Nat.add_assoc]

variable {number : Nat} {content : Content}

theorem stands_at (laid : LaidOut bytes contents) (found : contents[number]? = some content) :
    Stands bytes (offset bytes number) (content :: contents.drop (number + 1)) := by
  obtain ⟨h, rfl⟩ := List.getElem?_eq_some_iff.mp found
  rw [laid.offset_eq h, ← List.drop_eq_getElem_cons h]
  exact laid.behind number

theorem descriptor_eq (laid : LaidOut bytes contents) (found : contents[number]? = some content) :
    ∃ next, descriptor bytes number = content.descriptorAt (offset bytes number) next :=
  ⟨_, descriptorAt_stands (laid.stands_at found) laid.short⟩

theorem kind_eq (laid : LaidOut bytes contents) (found : contents[number]? = some content) :
    (descriptor bytes number).kind = content.kind := by
  obtain ⟨next, same⟩ := laid.descriptor_eq found
  rw [same]
  rfl

theorem inside (laid : LaidOut bytes contents) (found : contents[number]? = some content) :
    offset bytes number + Descriptor.length + content.data.size ≤ bytes.size := by
  have size := (laid.stands_at found).size_eq
  rw [Content.totalSize_cons, Content.size] at size
  omega

theorem readable (laid : LaidOut bytes contents) (small : bytes.size < 1 <<< 31)
    (found : contents[number]? = some content) :
    unreadable? none (offset bytes number) Descriptor.length = none := by
  have inside := laid.inside found
  have limit : FileStore.offsetLimit = 1 <<< 63 := rfl
  rw [Nat.one_shiftLeft] at limit small
  rw [unreadable?, if_neg (by decide), if_neg (by omega), Option.map_none]

theorem toNat_dataOffset_eq (laid : LaidOut bytes contents) (small : bytes.size < 1 <<< 31)
    (found : contents[number]? = some content) :
    (descriptor bytes number).dataOffset.toNat = offset bytes number + Descriptor.length := by
  have inside := laid.inside found
  obtain ⟨next, same⟩ := laid.descriptor_eq found
  rw [same]
  exact toNat_dataOffset (by rw [Content.size]; omega) next

theorem ends {inner : List Content} {ending : Content}
    (laid : LaidOut bytes (inner ++ [ending])) (more : ∀ content ∈ inner, content.kind ≠ .last)
    (ended : ending.kind = .last) : Ends bytes inner.length := by
  have length : (inner ++ [ending]).length = inner.length + 1 := List.length_append
  refine ⟨?_, ?_, ?_⟩
  · intro number upTo
    have h : number < (inner ++ [ending]).length := by omega
    have reach := laid.inside (List.getElem?_eq_getElem h)
    exact Nat.le_trans (Nat.le_add_right _ _) reach
  · intro number before
    have found := List.getElem?_eq_getElem (show number < (inner ++ [ending]).length by omega)
    have further : (inner ++ [ending]).drop (number + 1) ≠ [] := by
      rw [ne_eq, List.drop_eq_nil_iff]
      omega
    have next := offset_succ_stands (laid.stands_at found) further laid.short
    refine ⟨?_, ?_⟩
    · rw [laid.kind_eq found, List.getElem_append_left before]
      exact more _ (List.getElem_mem before)
    · rw [next, Content.size, Descriptor.length]
      omega
  · rw [laid.kind_eq List.getElem?_concat_length]
    exact ended

end LaidOut

/-! ## A table behind ten thousand sections -/

def done : Content := ⟨"done", .empty⟩

/-- Sections that a walk takes nothing from stand between the volume and the table. -/
def padded (count : Nat) : List Content :=
  ⟨"volume", volumeSection 1 1 512 1⟩ ::
    (List.replicate count ⟨"hash", .empty⟩ ++ [⟨"table", Reader.loneTable⟩])

def paddedFile (count : Nat) : ByteArray :=
  Acquisition.fileHeader 0 ++
    Content.laidOut fileHeaderSize (padded count ++ [done])

def paddedStore (count : Nat) : FileStore :=
  { FileStore.blank with contents := #[paddedFile count] }

theorem totalSize_padded (count : Nat) :
    Content.totalSize (padded count) = 204 + 76 * count := by
  have hashes : Content.totalSize (List.replicate count ⟨"hash", .empty⟩) = 76 * count := by
    induction count with
    | zero => rfl
    | succ count ih =>
      rw [List.replicate_succ, Content.totalSize_cons, ih, Content.size]
      change 76 + 0 + 76 * count = 76 * (count + 1)
      omega
  rw [padded, Content.totalSize_cons, Content.totalSize_append, hashes]
  change 100 + (76 * count + 104) = 204 + 76 * count
  omega

theorem size_paddedFile (count : Nat) : (paddedFile count).size = 293 + 76 * count := by
  have header : (Acquisition.fileHeader 0).size = 13 := rfl
  have ending : Content.totalSize [done] = 76 := rfl
  rw [paddedFile, ByteArray.size_append, Content.size_laidOut, Content.totalSize_append,
    totalSize_padded, header, ending]
  omega

theorem getElem?_padded_volume (count : Nat) :
    (padded count ++ [done])[0]? = some ⟨"volume", volumeSection 1 1 512 1⟩ :=
  rfl

theorem getElem?_padded_hash {count number : Nat} (before : number < count) :
    (padded count ++ [done])[number + 1]? = some ⟨"hash", .empty⟩ := by
  rw [padded, List.cons_append, List.getElem?_cons_succ, List.append_assoc,
    List.getElem?_append_left (by rw [List.length_replicate]; exact before),
    List.getElem?_replicate_of_lt before]

theorem getElem?_padded_table (count : Nat) :
    (padded count ++ [done])[count + 1]? = some ⟨"table", Reader.loneTable⟩ := by
  rw [padded, List.cons_append, List.getElem?_cons_succ, List.append_assoc,
    List.getElem?_append_right (Nat.le_of_eq List.length_replicate), List.length_replicate,
    Nat.sub_self]
  rfl

section Padded

variable {count : Nat} (few : count ≤ maxSections)

include few

theorem size_paddedFile_lt : (paddedFile count).size < 1 <<< 31 := by
  have limit : maxSections = 10000 := rfl
  rw [size_paddedFile, Nat.one_shiftLeft]
  omega

theorem laidOut_padded : LaidOut (paddedFile count) (padded count ++ [done]) where
  stands := ⟨Acquisition.fileHeader 0, rfl, rfl⟩
  short := Nat.lt_trans (size_paddedFile_lt few) (by decide)

theorem ends_padded : Ends (paddedFile count) (count + 2) := by
  have length : (padded count).length = count + 2 := by
    rw [padded, List.length_cons, List.length_append, List.length_replicate]
    rfl
  rw [← length]
  refine (laidOut_padded few).ends ?_ rfl
  intro content listed
  rw [padded, List.mem_cons, List.mem_append, List.mem_replicate, List.mem_singleton] at listed
  rcases listed with rfl | ⟨-, rfl⟩ | rfl
  · decide
  · decide
  · decide

theorem faultAt?_padded {number : Nat} (before : number ≤ count) :
    faultAt? none (paddedFile count) number = none := by
  have laid := laidOut_padded few
  have small := size_paddedFile_lt few
  cases number with
  | zero =>
    have found := getElem?_padded_volume count
    have kind : (descriptor (paddedFile count) 0).kind = .volume := laid.kind_eq found
    have first : (sections (paddedFile count) 0).any (kindIs .volume) = false := rfl
    have inside : offset (paddedFile count) 0 + Descriptor.length + Volume.length ≤
        (paddedFile count).size := laid.inside found
    have limit : FileStore.offsetLimit = 1 <<< 63 := rfl
    rw [faultAt?, laid.readable small found, Option.none_or, first, fault?, flaw?, overruns, kind,
      laid.toNat_dataOffset_eq small found]
    rw [Nat.one_shiftLeft] at limit small
    dsimp only
    rw [if_neg Bool.false_ne_true, if_neg Bool.false_ne_true, unreadable?, if_neg (by decide),
      if_neg (by omega), truncated?, if_neg (Nat.not_lt.mpr inside)]
    rfl
  | succ number =>
    have found := getElem?_padded_hash before
    rw [faultAt?, laid.readable small found, Option.none_or, fault?, flaw?, overruns,
      laid.kind_eq found]
    rfl

theorem slice_paddedFile_table :
    slice (paddedFile count)
      (descriptor (paddedFile count) (count + 1)).dataOffset.toNat 28 = Reader.loneTable := by
  have laid := laidOut_padded few
  have found := getElem?_padded_table count
  have data := (laid.stands_at found).data
  rw [laid.toNat_dataOffset_eq (size_paddedFile_lt few) found]
  exact data

theorem length_chunksAt_padded : (chunksAt (paddedFile count) 0 (count + 1)).length = 1 := by
  have laid := laidOut_padded few
  have found := getElem?_padded_table count
  have kind : (descriptor (paddedFile count) (count + 1)).kind = .table := laid.kind_eq found
  have inside := laid.inside found
  have start := laid.toNat_dataOffset_eq (size_paddedFile_lt few) found
  have data := slice_paddedFile_table few
  have width : Reader.loneTable.size = 28 := rfl
  have header : Table.headerLength = 24 := rfl
  have entry : Table.entryLength = 4 := rfl
  dsimp only at inside
  rw [width] at inside
  have declared : u32At (paddedFile count)
      (descriptor (paddedFile count) (count + 1)).dataOffset.toNat = 1 := by
    rw [← Nat.add_zero (UInt64.toNat _), ← u32At_slice (m := 28) (by decide), data]
    decide +kernel
  have room : (descriptor (paddedFile count) (count + 1)).dataSize = 28 := by
    have small := size_paddedFile_lt few
    obtain ⟨next, same⟩ := laid.descriptor_eq found
    rw [same]
    exact dataSize_descriptorAt (by rw [Content.size, width]; omega) next
  have one : entryCount (paddedFile count) (descriptor (paddedFile count) (count + 1)) = 1 := by
    rw [entryCount, declared, room]
    rfl
  rw [chunksAt, if_pos kind, locationsOf, Table.length_locations, tableEntries, one, start,
    size_slice, Nat.min_eq_left (by omega)]
  rfl

theorem not_overruns_padded {number : Nat} (inside : number ≤ count + 1) :
    overruns (paddedFile count) (descriptor (paddedFile count) number) = false := by
  rcases Nat.lt_or_eq_of_le inside with before | rfl
  · have sound := faultAt?_padded few (Nat.le_of_lt_succ before)
    rw [faultAt?, fault?, Option.or_eq_none_iff, Option.or_eq_none_iff] at sound
    exact Bool.eq_false_iff.mpr fun beyond => by simp [beyond] at sound
  · have kind : (descriptor (paddedFile count) (count + 1)).kind = .table :=
      (laidOut_padded few).kind_eq (getElem?_padded_table count)
    have base : tableBase (paddedFile count) (descriptor (paddedFile count) (count + 1)) = 0 := by
      rw [tableBase, ← u64At_slice (m := 28) (by decide), slice_paddedFile_table few]
      decide +kernel
    rw [overruns, kind]
    dsimp only
    rw [base, List.any_eq_false]
    intro entry _
    rw [Table.not_overflows_zero entry]
    exact Bool.false_ne_true

end Padded

theorem content_paddedStore (count : Nat) : (paddedStore count).content 0 = paddedFile count := rfl

/-- The last table that a walk comes to is listed. -/
theorem tables_listed_at_limit :
    (paddedStore 9998).content 0 = paddedFile 9998 ∧ (paddedFile 9998).size < UInt64.size ∧
      Ends (paddedFile 9998) 10000 ∧
      firstFault? ((paddedStore 9998).refusal (.file 0)) (paddedFile 9998)
        (min (10000 + 1) maxSections) ≠ some .overflow ∧
      ListsTables (paddedFile 9998) 0 10001 (walkSections (paddedStore 9998) (.file 0) 0) := by
  have few : 9998 ≤ maxSections := by decide
  have short := (laidOut_padded few).short
  have ends : Ends (paddedFile 9998) 10000 := ends_padded few
  have taken : min (10000 + 1) maxSections = 10000 := by decide
  have counted : firstFault? ((paddedStore 9998).refusal (.file 0)) (paddedFile 9998)
      (min (10000 + 1) maxSections) ≠ some .overflow := by
    refine not_overflow_of_firstFault? fun number below => not_overruns_padded few ?_
    rw [taken] at below
    exact Nat.le_of_lt_succ below
  have all := (lists_tables_within_limit (content_paddedStore 9998) short ends counted 0).2
  refine ⟨content_paddedStore 9998, short, ends, counted, ?_⟩
  rw [all]
  right
  intro number past inside
  have last : number = 10000 := Nat.le_antisymm inside past
  rw [last, chunksAt, ends.ended, if_neg (by decide)]

/-- One more section before the table, and nothing is listed nor is there a cause. -/
theorem table_behind_limit_not_listed :
    (paddedStore 9999).content 0 = paddedFile 9999 ∧ Ends (paddedFile 9999) 10001 ∧
      ¬ListsTables (paddedFile 9999) 0 10002 (walkSections (paddedStore 9999) (.file 0) 0) := by
  have few : 9999 ≤ maxSections := by decide
  have ends : Ends (paddedFile 9999) 10001 := ends_padded few
  have walk := ends.walkSections_eq (content_paddedStore 9999) (laidOut_padded few).short 0
  have taken : min (10001 + 1) maxSections = 10000 := by decide
  have sound : firstFault? none (paddedFile 9999) 10000 = none :=
    (firstFault?_eq_none_iff _ _ _).mpr fun number below =>
      faultAt?_padded few (Nat.le_of_lt_succ below)
  have granted : (paddedStore 9999).refusal (.file 0) = none := rfl
  refine ⟨content_paddedStore 9999, ends, ?_⟩
  rw [walk, taken, granted, listsTables_walked_iff sound, chunks_eq_iff _ _ (by decide)]
  intro none
  have empty := none 10000 (by decide) (by decide)
  have one : (chunksAt (paddedFile 9999) 0 10000).length = 1 := length_chunksAt_padded few
  rw [empty] at one
  cases one

end SectionChain

end EvidencePages.Ewf

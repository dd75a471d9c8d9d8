import EvidencePages.Ewf.Segment
import EvidencePages.Proofs.Ewf.Entries
import EvidencePages.Proofs.Store.PositionedRead

/-!
# Walking a cut segment file

A walk over a chain of sections visits them in order and stops where the file
is cut before the end of a descriptor. Of the table it keeps the whole entries
that the cut leaves.
-/

set_option autoImplicit false

namespace EvidencePages.Ewf

/-- Regular file `id` can be read and holds the first `length` bytes of `file`. -/
structure Keeping (store : FileStore) (id : Nat) (file : ByteArray) (length : Nat) : Prop where
  granted : store.refusal (.file id) = none
  content : store.content id = slice file 0 length
  length_le : length ≤ file.size
  small : file.size < 1 <<< 31

theorem Keeping.readBytes {store : FileStore} {id : Nat} {file : ByteArray} {length : Nat}
    (keeping : Keeping store id file length) {offset count : Nat}
    (inside : offset + count < FileStore.offsetLimit) :
    readBytes store (.file id) offset count =
      .ok (slice file offset (min count (length - offset))) := by
  rw [Ewf.readBytes, FileStore.readFull_file keeping.granted inside, keeping.content]
  dsimp only
  rw [slice_slice, Nat.zero_add]

theorem Keeping.length_eq {store : FileStore} {id : Nat} {file : ByteArray} {length : Nat}
    (keeping : Keeping store id file length) : store.length (.file id) = length := by
  have size : store.length (.file id) = (store.content id).size := rfl
  have bound := keeping.length_le
  rw [size, keeping.content, size_slice]
  omega

/-- The sections stand at the end of the file, the first of them at `offset`. -/
def Stands (file : ByteArray) (offset : Nat) (contents : List Content) : Prop :=
  ∃ before : ByteArray, before.size = offset ∧ file = before ++ Content.laidOut offset contents

namespace Stands

variable {file : ByteArray} {offset : Nat} {content : Content} {rest : List Content}

theorem size_eq {contents : List Content} (stands : Stands file offset contents) :
    file.size = offset + Content.totalSize contents := by
  obtain ⟨before, size, rfl⟩ := stands
  rw [ByteArray.size_append, Content.size_laidOut, size]

theorem descriptor (stands : Stands file offset (content :: rest)) :
    slice file offset Descriptor.length =
      content.descriptor (if rest.isEmpty then offset else offset + content.size) := by
  obtain ⟨before, size, rfl⟩ := stands
  exact slice_middle size (content.size_descriptor _) _

theorem data (stands : Stands file offset (content :: rest)) :
    slice file (offset + Descriptor.length) content.data.size = content.data := by
  obtain ⟨before, size, rfl⟩ := stands
  rw [Content.laidOut, ← ByteArray.append_assoc]
  exact slice_middle (by rw [ByteArray.size_append, Content.size_descriptor, size]) rfl _

theorem tail (stands : Stands file offset (content :: rest)) :
    Stands file (offset + content.size) rest := by
  obtain ⟨before, size, rfl⟩ := stands
  refine ⟨before ++ (content.descriptor (if rest.isEmpty then offset else offset + content.size) ++
    content.data), ?_, ?_⟩
  · rw [ByteArray.size_append, ByteArray.size_append, Content.size_descriptor, size, Content.size]
  · rw [Content.laidOut, ByteArray.append_assoc, ByteArray.append_assoc]

theorem readBytes {store : FileStore} {id length : Nat} (keeping : Keeping store id file length)
    (stands : Stands file offset (content :: rest)) {start count : Nat}
    (inside : start + count ≤ content.data.size) :
    Ewf.readBytes store (.file id) (offset + Descriptor.length + start) count =
      .ok (slice content.data start
        (min count (length - (offset + Descriptor.length + start)))) := by
  have small := keeping.small
  have size := stands.size_eq
  have limit : FileStore.offsetLimit = 1 <<< 63 := rfl
  rw [Nat.one_shiftLeft] at small limit
  rw [Content.totalSize_cons, Content.size] at size
  rw [keeping.readBytes (by omega)]
  have bound := Nat.min_le_left count (length - (offset + Descriptor.length + start))
  generalize min count (length - (offset + Descriptor.length + start)) = left at bound ⊢
  have inner := slice_slice file (offset + Descriptor.length) content.data.size start left
  rw [stands.data, Nat.min_eq_left (by omega)] at inner
  rw [inner]

end Stands

/-! ## From one section to the next -/

namespace Content

def descriptorAt (content : Content) (offset next : Nat) : Descriptor :=
  ⟨content.kind, UInt64.ofNat offset, UInt64.ofNat next, UInt64.ofNat content.size⟩

def Ended : List Content → Prop
  | [] => True
  | content :: rest => (content.kind = .last → rest = []) ∧ Ended rest

end Content

/-- The sections visited in order, up to one whose descriptor does not fit in `length` bytes. -/
def gather (store : FileStore) (handle : Handle) (part length : Nat) :
    Nat → List Content → Gathered → Except ContainerError Gathered
  | _, [], gathered => .ok gathered
  | offset, content :: rest, gathered =>
    if length < offset + Descriptor.length then .ok gathered
    else
      match visit store handle part gathered (content.descriptorAt offset
          (if rest.isEmpty then offset else offset + content.size)) with
      | .error cause => .error cause
      | .ok gathered => gather store handle part length (offset + content.size) rest gathered

theorem walkFrom_step {store : FileStore} {id length : Nat} {file : ByteArray}
    (keeping : Keeping store id file length) {offset : Nat} {content : Content}
    {rest : List Content} (stands : Stands file offset (content :: rest)) (part count : Nat)
    (gathered : Gathered) :
    walkFrom store (.file id) part (UInt64.ofNat length) (count + 1) (UInt64.ofNat offset)
        gathered =
      let descriptor := content.descriptorAt offset
        (if rest.isEmpty then offset else offset + content.size)
      if length < offset + Descriptor.length then .ok gathered
      else
        match visit store (.file id) part gathered descriptor with
        | .error cause => .error cause
        | .ok gathered =>
          if content.kind = .last then .ok gathered
          else if descriptor.next ≤ UInt64.ofNat offset then .ok gathered
          else walkFrom store (.file id) part (UInt64.ofNat length) count descriptor.next
            gathered := by
  have small := keeping.small
  have size := stands.size_eq
  have le := keeping.length_le
  have own : content.size = Descriptor.length + content.data.size := rfl
  have limit : FileStore.offsetLimit = 1 <<< 63 := rfl
  have width : Descriptor.length = 76 := rfl
  rw [Nat.one_shiftLeft] at small limit
  rw [Content.totalSize_cons] at size
  have wrap : UInt64.size = 2 ^ 64 := rfl
  have place : (UInt64.ofNat offset).toNat = offset := by
    rw [UInt64.toNat_ofNat', Nat.mod_eq_of_lt (by omega)]
  have known : (UInt64.ofNat length).toNat = length := by
    rw [UInt64.toNat_ofNat', Nat.mod_eq_of_lt (by omega)]
  rw [walkFrom, place, known]
  dsimp only
  rw [if_neg (by omega)]
  by_cases cut : length < offset + Descriptor.length
  · rw [if_pos cut, if_pos cut]
  rw [if_neg cut, if_neg cut, keeping.readBytes (by omega), Nat.min_eq_left (by omega),
    stands.descriptor]
  have reach : (if rest.isEmpty then offset else offset + content.size) < 1 <<< 64 := by
    rw [Nat.one_shiftLeft]
    split <;> omega
  dsimp only
  rw [Content.parse_descriptor content reach (by rw [Nat.one_shiftLeft]; omega)]
  rfl

theorem walkFrom_eq_gather {store : FileStore} {id length : Nat} {file : ByteArray}
    (keeping : Keeping store id file length) {offset : Nat} {contents : List Content}
    (stands : Stands file offset contents) (ended : Content.Ended contents) (part : Nat)
    {count : Nat} (enough : contents.length ≤ count) (gathered : Gathered) (more : contents ≠ []) :
    walkFrom store (.file id) part (UInt64.ofNat length) count (UInt64.ofNat offset) gathered =
      gather store (.file id) part length offset contents gathered := by
  induction contents generalizing offset gathered count with
  | nil => contradiction
  | cons content rest ih =>
    cases count with
    | zero => cases enough
    | succ count =>
      rw [walkFrom_step keeping stands, gather]
      dsimp only
      split
      · rfl
      · split
        · rfl
        · rename_i visited _
          cases rest with
          | nil =>
            have stays : (content.descriptorAt offset offset).next ≤ UInt64.ofNat offset :=
              UInt64.le_refl _
            rw [gather]
            by_cases last : content.kind = .last
            · exact if_pos last
            · exact (if_neg last).trans (if_pos stays)
          | cons next others =>
            have size := stands.size_eq
            have small := keeping.small
            have own : content.size = Descriptor.length + content.data.size := rfl
            have width : Descriptor.length = 76 := rfl
            rw [Content.totalSize_cons] at size
            rw [Nat.one_shiftLeft] at small
            have inner : content.kind ≠ .last := by
              intro last
              cases ended.1 last
            have forward : ¬ UInt64.ofNat (offset + content.size) ≤ UInt64.ofNat offset := by
              rw [UInt64.ofNat_le_iff_le (by rw [UInt64.size]; omega) (by rw [UInt64.size]; omega)]
              omega
            rw [if_neg inner]
            exact (if_neg forward).trans
              (ih stands.tail ended.2 (Nat.le_of_succ_le_succ enough) visited
                (List.cons_ne_nil _ _))

/-! ## Visits -/

variable {store : FileStore} {id length : Nat} {file : ByteArray} {offset : Nat}
  {content : Content} {rest : List Content}

theorem toNat_dataOffset (small : offset + content.size < 1 <<< 31) (next : Nat) :
    (content.descriptorAt offset next).dataOffset.toNat = offset + Descriptor.length := by
  have own : content.size = Descriptor.length + content.data.size := rfl
  have sum : (content.descriptorAt offset next).dataOffset =
      UInt64.ofNat (offset + Descriptor.length) := (UInt64.ofNat_add _ _).symm
  rw [Nat.one_shiftLeft] at small
  rw [sum, UInt64.toNat_ofNat', Nat.mod_eq_of_lt (by omega)]

theorem dataSize_descriptorAt (small : offset + content.size < 1 <<< 31) (next : Nat) :
    (content.descriptorAt offset next).dataSize = content.data.size := by
  have own : content.size = Descriptor.length + content.data.size := rfl
  rw [Nat.one_shiftLeft] at small
  rw [Descriptor.dataSize, Content.descriptorAt, UInt64.toNat_ofNat', Nat.mod_eq_of_lt (by omega)]
  omega

theorem stands_small (keeping : Keeping store id file length)
    (stands : Stands file offset (content :: rest)) : offset + content.size < 1 <<< 31 := by
  have size := stands.size_eq
  have small := keeping.small
  rw [Content.totalSize_cons] at size
  omega

theorem visit_header (keeping : Keeping store id file length)
    (stands : Stands file offset (content :: rest)) (kind : content.kind = .header false)
    (part : Nat) (gathered : Gathered) :
    ∃ header, ∀ next, visit store (.file id) part gathered (content.descriptorAt offset next) =
      .ok { gathered with header } := by
  have small := stands_small keeping stands
  have inside : 0 + min content.data.size maxHeaderLength ≤ content.data.size := by omega
  have read := stands.readBytes keeping inside
  rw [Nat.add_zero] at read
  refine ⟨gathered.header.or (some (.decode false (slice content.data 0
    (min (min content.data.size maxHeaderLength) (length - (offset + Descriptor.length)))))), ?_⟩
  intro next
  have taken : (content.descriptorAt offset next).kind = .header false := kind
  unfold visit
  rw [taken]
  dsimp only
  rw [toNat_dataOffset small, dataSize_descriptorAt small, read]
  rfl

theorem visit_volume (keeping : Keeping store id file length)
    (stands : Stands file offset (content :: rest)) (kind : content.kind = .volume)
    (wide : Volume.length ≤ content.data.size) (part next : Nat) {gathered : Gathered}
    (first : gathered.volume = none) :
    visit store (.file id) part gathered (content.descriptorAt offset next) =
      if length < offset + Descriptor.length + Volume.length then
        .error (.invalid .volumeTruncated)
      else
        .ok { gathered with volume := some (.parse (slice content.data 0 Volume.length)) } := by
  have small := stands_small keeping stands
  have width : Volume.length = 24 := rfl
  have inside : 0 + Volume.length ≤ content.data.size := by omega
  have read := stands.readBytes keeping inside
  have taken : (content.descriptorAt offset next).kind = .volume := kind
  rw [Nat.add_zero] at read
  unfold visit
  rw [taken]
  dsimp only
  rw [first, toNat_dataOffset small, read]
  dsimp only [Option.isSome]
  rw [if_neg Bool.false_ne_true, size_slice]
  by_cases cut : length < offset + Descriptor.length + Volume.length
  · rw [if_pos cut, if_pos (by omega)]
  · rw [if_neg cut, if_neg (by omega), Nat.min_eq_left (by omega)]

theorem visit_sectors (small : offset + content.size < 1 <<< 31) (kind : content.kind = .sectors)
    (part next : Nat) (gathered : Gathered) :
    visit store (.file id) part gathered (content.descriptorAt offset next) =
      .ok { gathered with sectorsEnd := some (UInt64.ofNat (offset + content.size)) } := by
  have taken : (content.descriptorAt offset next).kind = .sectors := kind
  have stop : (content.descriptorAt offset next).stop = UInt64.ofNat (offset + content.size) :=
    (UInt64.ofNat_add _ _).symm
  have counted : (content.descriptorAt offset next).overflows = false := by
    rw [Nat.one_shiftLeft] at small
    rw [Descriptor.overflows, Content.descriptorAt, UInt64.toNat_ofNat', UInt64.toNat_ofNat',
      Nat.mod_eq_of_lt (by omega), Nat.mod_eq_of_lt (by omega), UInt64.size]
    exact decide_eq_false (by omega)
  unfold visit
  rw [taken]
  dsimp only
  rw [counted, if_neg Bool.false_ne_true, stop]

theorem visit_last (kind : content.kind = .last) (part next : Nat) (gathered : Gathered) :
    visit store (.file id) part gathered (content.descriptorAt offset next) = .ok gathered := by
  have taken : (content.descriptorAt offset next).kind = .last := kind
  unfold visit
  rw [taken]

end EvidencePages.Ewf

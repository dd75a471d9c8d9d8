import EvidencePages.Proofs.Ewf.FullReads
import EvidencePages.Proofs.Ewf.SectionChain

/-!
# Chains that leave the file

A section may name any number as the place of the next one. Where no descriptor
fits there, the walk is over, and what was gathered stays. The last numbers are
an exception: a descriptor there would end behind all of them, and nothing
comes of the walk.
-/

set_option autoImplicit false

namespace EvidencePages.Ewf.SectionChain

/-- The section leads out of the file, and those before it lead up to it. -/
structure Leaves (bytes : ByteArray) (number : Nat) : Prop where
  leads : ∀ earlier ≤ number, Fits bytes earlier ∧ LeadsOn bytes earlier
  outside : bytes.size < offset bytes (number + 1) + Descriptor.length

/-- A descriptor at the place of the section would end behind the last number. -/
def EndsBeyond (bytes : ByteArray) (number : Nat) : Prop :=
  UInt64.size ≤ offset bytes number + Descriptor.length

instance (bytes : ByteArray) (number : Nat) : Decidable (EndsBeyond bytes number) :=
  inferInstanceAs (Decidable (_ ≤ _))

theorem Fits.not_endsBeyond {bytes : ByteArray} {number : Nat} (fits : Fits bytes number)
    (short : bytes.size < UInt64.size) : ¬EndsBeyond bytes number :=
  Nat.not_le.mpr (Nat.lt_of_le_of_lt fits short)

section Walk

variable {store : FileStore} {id : Nat} {bytes : ByteArray} (content : store.content id = bytes)
  (short : bytes.size < UInt64.size)

include content short

omit content short in
theorem walkFrom_of_endsBeyond {number : Nat} (beyond : EndsBeyond bytes number)
    (segment limit : Nat) (before : Gathered) :
    walkFrom store (.file id) segment (UInt64.ofNat bytes.size) (limit + 1)
      (UInt64.ofNat (offset bytes number)) before = .error .overflow := by
  have beyond : UInt64.size ≤ offset bytes number + Descriptor.length := beyond
  rw [walkFrom, toNat_place]
  dsimp only
  rw [if_pos beyond]

theorem walkSections_of_leaves {number : Nat} (leaves : Leaves bytes number)
    (visited : number < maxSections) (segment : Nat) :
    walkSections store (.file id) segment =
      (walked (store.refusal (.file id)) bytes segment (number + 1)).bind fun taken =>
        if EndsBeyond bytes (number + 1) ∧ number + 1 < maxSections then .error .overflow
        else .ok taken := by
  have size : store.length (.file id) = bytes.size := congrArg ByteArray.size content
  obtain ⟨left, total⟩ := Nat.exists_eq_add_of_le (Nat.succ_le_of_lt visited)
  have start := walkFrom_start content short
    (fun earlier below => leaves.leads earlier (Nat.le_of_lt_succ below)) segment left
  rw [walkSections, size, total, start]
  refine congrArg (Except.bind (walked _ bytes segment (number + 1))) (funext fun taken => ?_)
  by_cases beyond : EndsBeyond bytes (number + 1)
  · cases left with
    | zero => rw [if_neg fun both => Nat.lt_irrefl _ both.2]; rfl
    | succ left =>
      rw [if_pos ⟨beyond, by omega⟩]
      exact walkFrom_of_endsBeyond beyond segment left taken
  · rw [if_neg fun both => beyond both.1]
    exact walkFrom_past_end short (Nat.not_le.mp beyond) (Nat.not_le.mpr leaves.outside) segment
      left taken

/-- A walk that is led out of the file fails at the sections that it visits or else ends with what
they hold, exactly if the end of a descriptor at the named place is a number or so many sections
were visited already. -/
theorem leaving_walk_ends_iff {number : Nat} (leaves : Leaves bytes number)
    (visited : number < maxSections) (segment : Nat) :
    (∀ cause, firstFault? (store.refusal (.file id)) bytes (number + 1) = some cause →
        walkSections store (.file id) segment = .error cause) ∧
      (firstFault? (store.refusal (.file id)) bytes (number + 1) = none →
        (walkSections store (.file id) segment = .ok (gathered bytes segment (number + 1)) ↔
          offset bytes (number + 1) + Descriptor.length < UInt64.size ∨
            number + 1 = maxSections) ∧
        (walkSections store (.file id) segment = .ok (gathered bytes segment (number + 1)) ∨
          walkSections store (.file id) segment = .error .overflow)) := by
  rw [walkSections_of_leaves content short leaves visited, walked]
  refine ⟨?_, ?_⟩
  · intro cause fault
    rw [fault]
    rfl
  · intro sound
    rw [sound, outcome_none, bind_ok]
    by_cases astray : EndsBeyond bytes (number + 1) ∧ number + 1 < maxSections
    · rw [if_pos astray]
      refine ⟨iff_of_false ?_ ?_, .inr rfl⟩
      · intro ended
        cases ended
      · rintro (counted | last)
        · exact Nat.not_lt.mpr astray.1 counted
        · exact Nat.ne_of_lt astray.2 last
    · rw [if_neg astray]
      refine ⟨iff_of_true rfl ?_, .inl rfl⟩
      rcases Decidable.not_and_iff_or_not.mp astray with counted | last
      · exact .inl (Nat.not_le.mp counted)
      · exact .inr (by omega)

/-- Whatever a walk gives is what its visited sections hold, for any file. -/
theorem gathered_of_walkSections {segment : Nat} {taken : Gathered}
    (walk : walkSections store (.file id) segment = .ok taken) :
    ∃ count, Cut bytes maxSections count ∧
      firstFault? (store.refusal (.file id)) bytes count = none ∧
        taken = gathered bytes segment count := by
  have size : store.length (.file id) = bytes.size := congrArg ByteArray.size content
  have settle : ∀ count, walked (store.refusal (.file id)) bytes segment count = .ok taken →
      firstFault? (store.refusal (.file id)) bytes count = none ∧
        taken = gathered bytes segment count := by
    intro count made
    unfold walked at made
    cases fault : firstFault? (store.refusal (.file id)) bytes count with
    | some cause =>
      rw [fault] at made
      cases made
    | none =>
      rw [fault] at made
      exact ⟨rfl, (Except.ok.inj made).symm⟩
  obtain ⟨count, cut⟩ := exists_cut bytes maxSections
  refine ⟨count, cut, settle count ?_⟩
  by_cases reach : ∀ number < count, LeadsOn bytes number → ¬EndsBeyond bytes (number + 1)
  · rw [walkSections, size] at walk
    rw [← walkFrom_cut content short cut
      (fun number below leads => Nat.not_le.mp (reach number below leads)) segment]
    exact walk
  · -- Only the last visited section can lead so far.
    simp only [Classical.not_forall, Classical.not_not] at reach
    obtain ⟨number, below, leads, beyond⟩ := reach
    have apart : ¬Fits bytes (number + 1) := fun fits => fits.not_endsBeyond short beyond
    have last : number + 1 = count := by
      apply Nat.le_antisymm below
      apply Nat.le_of_not_lt
      intro more
      exact apart (cut.fits _ more)
    have leaves : Leaves bytes number := by
      refine ⟨fun earlier upTo => ⟨cut.fits earlier (by omega), ?_⟩, Nat.not_le.mp apart⟩
      rcases Nat.lt_or_eq_of_le upTo with before | rfl
      · exact cut.leads earlier (by omega)
      · exact leads
    rw [walkSections_of_leaves content short leaves
      (Nat.lt_of_lt_of_le below cut.le_limit), last] at walk
    cases made : walked (store.refusal (.file id)) bytes segment count with
    | error cause =>
      rw [made] at walk
      cases walk
    | ok given =>
      rw [made, bind_ok] at walk
      split at walk
      · cases walk
      · exact walk

end Walk

/-! ## The last places -/

/-- A volume behind another section, which names any place as the next one. -/
def leadingTo (next : Nat) : ByteArray :=
  let first : Content := ⟨"hash", .empty⟩
  let volume : Content := ⟨"volume", volumeSection 1 1 512 1⟩
  Acquisition.fileHeader 0 ++ (first.descriptor (fileHeaderSize + first.size) ++
    (volume.descriptor next ++ volume.data))

def leadingStore (next : Nat) : FileStore :=
  { FileStore.blank with contents := #[leadingTo next] }

theorem leaves_leadingTo (next : Nat)
    (leads : (∀ earlier < 2, Fits (leadingTo next) earlier ∧ LeadsOn (leadingTo next) earlier) ∧
      (leadingTo next).size < offset (leadingTo next) 2 + Descriptor.length) :
    Leaves (leadingTo next) 1 :=
  ⟨fun earlier upTo => leads.1 earlier (Nat.lt_succ_of_le upTo), leads.2⟩

def lastPlace : Nat := 0xFFFFFFFFFFFFFFB3

theorem walk_ends_at_last_place :
    (leadingStore lastPlace).content 0 = leadingTo lastPlace ∧
      (leadingTo lastPlace).size < UInt64.size ∧ Leaves (leadingTo lastPlace) 1 ∧
      1 < maxSections ∧
      ∃ taken, walkSections (leadingStore lastPlace) (.file 0) 0 = .ok taken ∧
        taken.volume = some ⟨1, 1, 512, 1⟩ := by
  have content : (leadingStore lastPlace).content 0 = leadingTo lastPlace := rfl
  have short : (leadingTo lastPlace).size < UInt64.size := by decide +kernel
  have leaves : Leaves (leadingTo lastPlace) 1 := leaves_leadingTo _ (by decide +kernel)
  have sound : firstFault? none (leadingTo lastPlace) (1 + 1) = none := by decide +kernel
  have counted : offset (leadingTo lastPlace) (1 + 1) + Descriptor.length < UInt64.size := by
    decide +kernel
  have volume : (gathered (leadingTo lastPlace) 0 (1 + 1)).volume = some ⟨1, 1, 512, 1⟩ := by
    decide +kernel
  have visited : 1 < maxSections := by decide
  obtain ⟨-, walks⟩ := leaving_walk_ends_iff content short leaves visited 0
  exact ⟨content, short, leaves, visited, _, (walks sound).1.mpr (.inl counted), volume⟩

/-- One place further, and nothing of what the sections hold is left. -/
theorem walk_overflows_behind_last_place :
    (leadingStore (lastPlace + 1)).content 0 = leadingTo (lastPlace + 1) ∧
      Leaves (leadingTo (lastPlace + 1)) 1 ∧ firstFault? none (leadingTo (lastPlace + 1)) 2 = none ∧
      walkSections (leadingStore (lastPlace + 1)) (.file 0) 0 = .error .overflow ∧
      walkSections (leadingStore (lastPlace + 1)) (.file 0) 0 ≠
        .ok (gathered (leadingTo (lastPlace + 1)) 0 2) := by
  have content : (leadingStore (lastPlace + 1)).content 0 = leadingTo (lastPlace + 1) := rfl
  have short : (leadingTo (lastPlace + 1)).size < UInt64.size := by decide +kernel
  have leaves : Leaves (leadingTo (lastPlace + 1)) 1 := leaves_leadingTo _ (by decide +kernel)
  have sound : firstFault? none (leadingTo (lastPlace + 1)) 2 = none := by decide +kernel
  have granted : (leadingStore (lastPlace + 1)).refusal (.file 0) = none := rfl
  have astray : EndsBeyond (leadingTo (lastPlace + 1)) 2 ∧ 2 < maxSections := by decide +kernel
  have walk : walkSections (leadingStore (lastPlace + 1)) (.file 0) 0 =
      .error .overflow := by
    rw [walkSections_of_leaves content short leaves (by decide), granted, walked, sound,
      outcome_none, bind_ok, if_pos astray]
  refine ⟨content, leaves, sound, walk, ?_⟩
  rw [walk]
  intro ended
  cases ended

end EvidencePages.Ewf.SectionChain

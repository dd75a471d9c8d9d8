import Mathlib.Algebra.Group.Nat.Defs
import EvidencePages.Raw.DeviceProbe

/-!
# What the search for a size finds

A device that does not tell its size is searched through reads of one byte. It
may be readable at any offsets, with holes anywhere. The size found is always a
boundary: the byte before it can be read and the byte at it cannot. While the
bits are settled the offset is readable, or still zero, and the offset that is
higher by the power of the next bit is not; each read halves what lies between
the two.
-/

set_option autoImplicit false

namespace EvidencePages.DeviceProbe

variable (readable : Nat → Bool)

/-! ## The least power that cannot be read -/

theorem leastUnreadable_of_readable (count exponent : Nat)
    (all : ∀ step < count, readable (2 ^ (exponent + step)) = true) :
    leastUnreadable readable count exponent =
      (none, (List.range' exponent count).map (2 ^ ·)) := by
  induction count generalizing exponent with
  | zero => rfl
  | succ count ih =>
    have here : readable (2 ^ exponent) = true := all 0 (Nat.succ_pos count)
    have rest := ih (exponent + 1) fun step below => by
      rw [Nat.add_assoc, Nat.add_comm 1]
      exact all (step + 1) (Nat.succ_lt_succ below)
    rw [leastUnreadable, Nat.one_shiftLeft, if_pos here, rest]
    rfl

theorem leastUnreadable_of_unreadable {count steps : Nat} (exponent : Nat) (tried : steps < count)
    (below : ∀ step < steps, readable (2 ^ (exponent + step)) = true)
    (fails : readable (2 ^ (exponent + steps)) = false) :
    leastUnreadable readable count exponent =
      (some (exponent + steps), (List.range' exponent (steps + 1)).map (2 ^ ·)) := by
  induction steps generalizing count exponent with
  | zero =>
    obtain ⟨count, rfl⟩ := Nat.exists_eq_add_of_lt tried
    rw [Nat.add_zero] at fails
    rw [leastUnreadable, Nat.one_shiftLeft, if_neg (by rw [fails]; exact Bool.false_ne_true)]
    rfl
  | succ steps ih =>
    obtain ⟨count, rfl⟩ := Nat.exists_eq_add_one_of_ne_zero (Nat.ne_of_gt (Nat.zero_lt_of_lt tried))
    have here : readable (2 ^ exponent) = true := below 0 (Nat.succ_pos steps)
    have rest := ih (exponent + 1) (Nat.lt_of_succ_lt_succ tried)
      (fun step low => by
        rw [Nat.add_assoc, Nat.add_comm 1]
        exact below (step + 1) (Nat.succ_lt_succ low))
      (by rw [Nat.add_assoc, Nat.add_comm 1]; exact fails)
    rw [leastUnreadable, Nat.one_shiftLeft, if_pos here, rest, Nat.add_assoc, Nat.add_comm 1]
    rfl

theorem readable_or_least (limit : Nat) :
    (∀ exponent < limit, readable (2 ^ exponent) = true) ∨
      ∃ exponent < limit, (∀ lower < exponent, readable (2 ^ lower) = true) ∧
        readable (2 ^ exponent) = false := by
  induction limit with
  | zero => exact .inl fun exponent below => absurd below (Nat.not_lt_zero exponent)
  | succ limit ih =>
    rcases ih with all | ⟨exponent, below, lower, fails⟩
    · cases last : readable (2 ^ limit) with
      | false => exact .inr ⟨limit, Nat.lt_succ_self limit, all, last⟩
      | true =>
        refine .inl fun exponent below => ?_
        rcases Nat.lt_succ_iff_lt_or_eq.mp below with before | rfl
        · exact all exponent before
        · exact last
    · exact .inr ⟨exponent, Nat.lt_succ_of_lt below, lower, fails⟩

/-! ## Settling the bits -/

theorem or_one_shiftLeft {offset bit : Nat} (aligned : 2 ^ (bit + 1) ∣ offset) :
    offset ||| 1 <<< bit = offset + 2 ^ bit := by
  obtain ⟨high, rfl⟩ := aligned
  rw [Nat.one_shiftLeft, Nat.two_pow_add_eq_or_of_lt (Nat.pow_lt_pow_succ Nat.one_lt_two)]

theorem xor_one_shiftLeft {offset bit : Nat} (aligned : 2 ^ (bit + 1) ∣ offset) :
    (offset ||| 1 <<< bit) ^^^ 1 <<< bit = offset := by
  obtain ⟨high, rfl⟩ := aligned
  apply Nat.eq_of_testBit_eq
  intro place
  rw [Nat.one_shiftLeft, Nat.testBit_xor, Nat.testBit_or, Nat.testBit_two_pow_mul,
    Nat.testBit_two_pow]
  by_cases here : bit = place
  · subst here
    have low : decide (bit ≥ bit + 1) = false := decide_eq_false (Nat.not_succ_le_self bit)
    rw [low, decide_eq_true rfl]
    rfl
  · simp [here]

/-- The offset once its next bit is settled. -/
def settledBit (offset bit : Nat) : Nat :=
  if readable (offset + 2 ^ bit) then offset + 2 ^ bit else offset

theorem settle_succ {offset bit : Nat} (aligned : 2 ^ (bit + 1) ∣ offset) :
    settle readable (bit + 1) offset =
      ((settle readable bit (settledBit readable offset bit)).1,
        (offset + 2 ^ bit) :: (settle readable bit (settledBit readable offset bit)).2) := by
  rw [settle, xor_one_shiftLeft aligned, or_one_shiftLeft aligned]
  rfl

/-- The offset before its lowest `bits` bits are settled: these are clear, it can be read unless it
is still zero, and the offset that is higher by all of them and one cannot. -/
structure Bracketed (bits offset : Nat) : Prop where
  aligned : 2 ^ bits ∣ offset
  reached : offset = 0 ∨ readable offset = true
  bounded : readable (offset + 2 ^ bits) = false

variable {readable}

theorem Bracketed.settledBit {bit offset : Nat} (bracketed : Bracketed readable (bit + 1) offset) :
    Bracketed readable bit (settledBit readable offset bit) := by
  obtain ⟨aligned, reached, bounded⟩ := bracketed
  have lower : 2 ^ bit ∣ offset := Nat.dvd_trans (Nat.pow_dvd_pow 2 (Nat.le_succ bit)) aligned
  rw [Nat.two_pow_succ, ← Nat.add_assoc] at bounded
  rw [DeviceProbe.settledBit]
  cases step : readable (offset + 2 ^ bit) with
  | true => exact ⟨Nat.dvd_add lower (Nat.dvd_refl _), .inr step, bounded⟩
  | false => exact ⟨lower, reached, step⟩

/-- Settling ends at an offset that cannot be raised by one. -/
theorem Bracketed.settle {bits offset : Nat} (bracketed : Bracketed readable bits offset) :
    Bracketed readable 0 (settle readable bits offset).1 := by
  induction bits generalizing offset with
  | zero => exact bracketed
  | succ bit ih =>
    rw [settle_succ readable bracketed.aligned]
    exact ih bracketed.settledBit

theorem Bracketed.tried {bits offset : Nat} (bracketed : Bracketed readable bits offset) :
    (DeviceProbe.settle readable bits offset).2.length = bits ∧
      ∀ tried ∈ (DeviceProbe.settle readable bits offset).2, tried < offset + 2 ^ bits := by
  -- Raising the offset by one bit keeps it below the offset that is known to fail.
  induction bits generalizing offset with
  | zero => exact ⟨rfl, by simp [DeviceProbe.settle]⟩
  | succ bit ih =>
    obtain ⟨length, below⟩ := ih bracketed.settledBit
    have raised : DeviceProbe.settledBit readable offset bit ≤ offset + 2 ^ bit := by
      rw [DeviceProbe.settledBit]
      split
      · exact Nat.le_refl _
      · exact Nat.le_add_right _ _
    have positive := Nat.two_pow_pos bit
    rw [settle_succ readable bracketed.aligned, Nat.two_pow_succ]
    refine ⟨by rw [List.length_cons, length], fun tried listed => ?_⟩
    rcases List.mem_cons.mp listed with rfl | later
    · omega
    · have := below tried later
      omega

/-! ## The size -/

/-- The byte before the size can be read and the one at it cannot. A size of zero says no more than
that there is nothing at offset one. -/
def AtBoundary (readable : Nat → Bool) (size : Nat) : Prop :=
  size = 0 ∧ readable 1 = false ∨
    2 ≤ size ∧ readable (size - 1) = true ∧ readable size = false

theorem Bracketed.atBoundary {offset : Nat} (bracketed : Bracketed readable 0 offset) :
    AtBoundary readable (if offset = 0 then 0 else offset + 1) := by
  obtain ⟨-, reached, bounded⟩ := bracketed
  by_cases none : offset = 0
  · subst none
    exact .inl ⟨rfl, bounded⟩
  · rw [if_neg none]
    exact .inr ⟨by omega, reached.resolve_left none, bounded⟩

theorem AtBoundary.eq_length {size length : Nat} (boundary : AtBoundary readable size)
    (filled : ∀ offset, readable offset = true ↔ offset < length) :
    size = if length ≤ 1 then 0 else length := by
  rcases boundary with ⟨rfl, fails⟩ | ⟨two, reads, fails⟩
  · have short : ¬1 < length := fun long => by
      rw [(filled 1).mpr long] at fails
      cases fails
    rw [if_pos (Nat.not_lt.mp short)]
  · have lower := (filled (size - 1)).mp reads
    have upper : ¬size < length := fun long => by
      rw [(filled size).mpr long] at fails
      cases fails
    rw [if_neg (by omega)]
    omega

theorem search_of_least {exponent : Nat} (tried : exponent < exponentLimit)
    (below : ∀ lower < exponent, readable (2 ^ lower) = true)
    (fails : readable (2 ^ exponent) = false) :
    Bracketed readable exponent 0 ∧
      search readable =
        let settled := settle readable exponent 0
        (some (if settled.1 = 0 then 0 else settled.1 + 1),
          (List.range' 0 (exponent + 1)).map (2 ^ ·) ++ 2 ^ exponent :: settled.2) := by
  have least := leastUnreadable_of_unreadable readable 0 tried
    (fun step low => by rw [Nat.zero_add]; exact below step low)
    (by rw [Nat.zero_add]; exact fails)
  rw [Nat.zero_add] at least
  refine ⟨⟨Nat.dvd_zero _, .inl rfl, by rw [Nat.zero_add]; exact fails⟩, ?_⟩
  rw [search, least]
  dsimp only
  rw [settle, Nat.or_self, Nat.xor_self, Nat.one_shiftLeft, fails]
  rfl

theorem size_of_readable (all : ∀ exponent < 60, readable (2 ^ exponent) = true) :
    size none readable = (none, (List.range 60).map (2 ^ ·)) := by
  have none := leastUnreadable_of_readable readable exponentLimit 0
    fun step below => by rw [Nat.zero_add]; exact all step below
  rw [size, search, none, List.range_eq_range']
  rfl

theorem size_of_least {exponent : Nat} (small : exponent < 60)
    (below : ∀ lower < exponent, readable (2 ^ lower) = true)
    (fails : readable (2 ^ exponent) = false) :
    ∃ found tried, size none readable = (some found, tried) ∧
      tried.length = 2 * (exponent + 1) ∧ tried.length ≤ 120 ∧
      (∀ offset ∈ tried, offset ≤ 2 ^ exponent) ∧ AtBoundary readable found := by
  obtain ⟨bracketed, searched⟩ := search_of_least small below fails
  obtain ⟨length, bounded⟩ := bracketed.tried
  have count : ((List.range' 0 (exponent + 1)).map (2 ^ ·) ++
      2 ^ exponent :: (settle readable exponent 0).2).length = 2 * (exponent + 1) := by
    simp only [List.length_append, List.length_map, List.length_range', List.length_cons, length]
    omega
  refine ⟨_, _, searched, count, by rw [count]; omega, ?_, bracketed.settle.atBoundary⟩
  intro offset listed
  rcases List.mem_append.mp listed with power | settled
  · obtain ⟨lower, ranged, rfl⟩ := List.mem_map.mp power
    have := (List.mem_range'_1.mp ranged).2
    exact Nat.pow_le_pow_right Nat.two_pos (by omega)
  · rcases List.mem_cons.mp settled with rfl | later
    · exact Nat.le_refl _
    · have := bounded offset later
      omega

/-- A device that tells no size is given one at a boundary of what can be read, after two reads for
each power of two up to the first that fails, and none beyond that power. If every power can be
read, the search gives up after it has tried them all. A device without holes so gets its exact
size, if that is not a single byte and not beyond the last power. -/
theorem size_at_boundary (readable : Nat → Bool) :
    ((∀ exponent < 60, readable (2 ^ exponent) = true) →
      size none readable = (none, (List.range 60).map (2 ^ ·))) ∧
    (∀ exponent < 60, (∀ lower < exponent, readable (2 ^ lower) = true) →
      readable (2 ^ exponent) = false →
      ∃ found tried, size none readable = (some found, tried) ∧
        tried.length = 2 * (exponent + 1) ∧ tried.length ≤ 120 ∧
        (∀ offset ∈ tried, offset ≤ 2 ^ exponent) ∧ AtBoundary readable found) ∧
    (∀ length, (∀ offset, readable offset = true ↔ offset < length) →
      (size none readable).1 =
        if 2 ^ 59 < length then none else if length ≤ 1 then some 0 else some length) ∧
    ∀ (store : FileStore) (handle : Handle), store.length handle = 0 →
      fileSize store handle =
        match (size none (isReadable store handle)).1 with
        | none => .error .probeExhausted
        | some found => .ok found := by
  refine ⟨size_of_readable, fun _ => size_of_least, ?_, ?_⟩
  · intro length filled
    rcases readable_or_least readable 60 with all | ⟨exponent, small, below, fails⟩
    · have long := (filled (2 ^ 59)).mp (all 59 (by decide))
      rw [size_of_readable all, if_pos long]
    · obtain ⟨size, tried, given, -, -, -, boundary⟩ := size_of_least small below fails
      have short : ¬2 ^ 59 < length := by
        intro long
        have within : 2 ^ exponent ≤ 2 ^ 59 := Nat.pow_le_pow_right Nat.two_pos (by omega)
        rw [(filled (2 ^ exponent)).mpr (Nat.lt_of_le_of_lt within long)] at fails
        cases fails
      rw [given, if_neg short, boundary.eq_length filled]
      split <;> rfl
  · intro store handle silent
    rw [fileSize, silent]
    rfl

def patchyDevice (offset : Nat) : Bool := offset ≤ 2 || offset = 5 || offset = 6

/-- The second run of bytes lies behind the first power that fails and is not seen. A device of five
bytes is sized exactly, and one without end is given up. -/
theorem size_patchyDevice :
    patchyDevice 1 = true ∧ patchyDevice 2 = true ∧ patchyDevice 4 = false ∧
      size none patchyDevice = (some 3, [1, 2, 4, 4, 2, 3]) ∧
      ([1, 2, 4, 4, 2, 3] : List Nat).length = 2 * (2 + 1) ∧ AtBoundary patchyDevice 3 ∧
      (size none fun offset => decide (offset < 5)).1 = some 5 ∧
      (size none fun _ => true) = (none, (List.range 60).map (2 ^ ·)) := by
  have below : ∀ lower < 2, patchyDevice (2 ^ lower) = true := by decide
  obtain ⟨-, found, -, -⟩ := size_at_boundary patchyDevice
  obtain ⟨size, tried, given, length, -, -, boundary⟩ := found 2 (by decide) below rfl
  have run : DeviceProbe.size none patchyDevice = (some 3, [1, 2, 4, 4, 2, 3]) := by
    decide +kernel
  obtain ⟨rfl, rfl⟩ : 3 = size ∧ [1, 2, 4, 4, 2, 3] = tried := by
    rw [run] at given
    cases given
    exact ⟨rfl, rfl⟩
  obtain ⟨-, -, filled, -⟩ := size_at_boundary fun offset => decide (offset < 5)
  obtain ⟨exhausted, -⟩ := size_at_boundary fun _ => true
  exact ⟨rfl, rfl, rfl, run, length, boundary, filled 5 fun offset => decide_eq_true_iff,
    exhausted fun _ _ => rfl⟩

end EvidencePages.DeviceProbe

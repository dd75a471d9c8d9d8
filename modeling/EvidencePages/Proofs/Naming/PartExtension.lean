import EvidencePages.Naming.PartExtension
import EvidencePages.Proofs.Text.ByteOrder

/-!
# The order of part extensions

The two ways of counting join in order: two digits come before three letters
under the same first letter, and letters carry into the one before them. So the
extensions of a set increase as bytes from part 1 to the last one before the
letters run out at `ZZZ`. Behind it there is none, up to the numbers at which
the sum of letter and number reaches 2³² and overflows. Only a set that starts
with `A` has no such number.
-/

set_option autoImplicit false

namespace EvidencePages

/-! ## Letters and digits -/

theorem upperLetter?_letter (upper : Bool) {index : Nat} (small : index < 26) :
    upperLetter? (letter upper index) = some index :=
  (by decide : ∀ upper : Bool, ∀ index < 26, upperLetter? (letter upper index) = some index)
    upper index small

theorem letter_le_iff (upper : Bool) {index : Nat} (small : index < 26) :
    decide (letter upper index ≤ 'Z') = upper :=
  (by decide : ∀ upper : Bool, ∀ index < 26, decide (letter upper index ≤ 'Z') = upper)
    upper index small

theorem letter_lt (upper : Bool) {low high : Nat} (lt : low < high) (bound : high < 26) :
    letter upper low < letter upper high :=
  (by decide : ∀ upper : Bool, ∀ high < 26, ∀ low < high, letter upper low < letter upper high)
    upper high bound low lt

theorem digitChar_lt {low high : Nat} (lt : low < high) (bound : high < 10) :
    Nat.digitChar low < Nat.digitChar high :=
  (by decide : ∀ high < 10, ∀ low < high, Nat.digitChar low < Nat.digitChar high)
    high bound low lt

theorem digitChar_lt_letter (upper : Bool) {digit index : Nat} (small : digit < 10)
    (bound : index < 26) : Nat.digitChar digit < letter upper index :=
  (by decide : ∀ upper : Bool, ∀ digit < 10, ∀ index < 26,
    Nat.digitChar digit < letter upper index) upper digit small index bound

theorem leftpad_toDigits {number : Nat} (bound : number < 100) :
    (Nat.toDigits 10 number).leftpad 2 '0' =
      [Nat.digitChar (number / 10), Nat.digitChar (number % 10)] :=
  (by decide : ∀ number < 100, (Nat.toDigits 10 number).leftpad 2 '0' =
    [Nat.digitChar (number / 10), Nat.digitChar (number % 10)]) number bound

namespace PartExtension

variable {first : String} {upper : Bool} {index : Nat} {rest : List Char}

/-! ## What a number spells -/

def letters (upper : Bool) (value : Nat) : List Char :=
  [letter upper (value / 676), letter upper (value / 26 % 26), letter upper (value % 26)]

def digits (upper : Bool) (index number : Nat) : List Char :=
  [letter upper index, Nat.digitChar (number / 10), Nat.digitChar (number % 10)]

/-- The extension of a part with no bound on its number. -/
def spelled (upper : Bool) (index number : Nat) : List Char :=
  if number ≤ 99 then digits upper index number
  else letters upper (676 * index + (number - 100))

/-- The last part whose extension starts with the first letter or one behind it. -/
def lastNumber (index : Nat) : Nat := 99 + 676 * (26 - index)

def Overflows (index number : Nat) : Prop := UInt32.size ≤ 676 * index + (number - 100)

instance (index number : Nat) : Decidable (Overflows index number) :=
  inferInstanceAs (Decidable (_ ≤ _))

theorem partExtension_eq (small : index < 26) (lead : first.toList = letter upper index :: rest)
    (number : UInt32) :
    partExtension first number =
      if Overflows index number.toNat then .error ⟨⟩
      else if 1 ≤ number.toNat ∧ number.toNat ≤ lastNumber index then
        .ok (some (String.ofList (spelled upper index number.toNat)))
      else .ok none := by
  have size : UInt32.size = 2 ^ 32 := rfl
  have last : lastNumber index = 99 + 676 * (26 - index) := rfl
  rw [partExtension, lead]
  dsimp only
  rw [upperLetter?_letter upper small]
  dsimp only
  rw [letter_le_iff upper small, Nat.mul_comm index]
  by_cases zero : number.toNat = 0
  · have settled : ¬Overflows index number.toNat := by
      unfold Overflows
      omega
    rw [if_pos (UInt32.toNat_inj.mp zero), if_neg settled, if_neg (by omega)]
  rw [if_neg (fun same => zero (congrArg UInt32.toNat same))]
  by_cases few : number.toNat ≤ 99
  · have settled : ¬Overflows index number.toNat := by
      unfold Overflows
      omega
    rw [if_pos (UInt32.le_iff_toNat_le.mpr few), if_neg settled, if_pos (by omega), spelled,
      if_pos few, digits, leftpad_toDigits (Nat.lt_succ_of_le few)]
  rw [if_neg (fun le => few (UInt32.le_iff_toNat_le.mp le)), spelled, if_neg few]
  have limit : letterLimit = 17576 := rfl
  by_cases late : Overflows index number.toNat
  · exact (if_pos late).trans (if_pos late).symm
  rw [if_neg late]
  refine (if_neg late).trans ?_
  by_cases early : number.toNat ≤ lastNumber index
  · rw [if_neg (by omega), if_pos ⟨by omega, early⟩]
    rfl
  · rw [if_pos (by omega), if_neg (fun both => early both.2)]

theorem eq_error_iff (small : index < 26) (lead : first.toList = letter upper index :: rest)
    (number : UInt32) :
    partExtension first number = .error ⟨⟩ ↔ Overflows index number.toNat := by
  rw [partExtension_eq small lead]
  split
  · rename_i late
    exact iff_of_true rfl late
  · rename_i settled
    refine iff_of_false ?_ settled
    split <;> simp

theorem not_overflows (small : index < 26) {number : Nat} (early : number ≤ lastNumber index) :
    ¬Overflows index number := by
  have size : UInt32.size = 2 ^ 32 := rfl
  unfold lastNumber at early
  unfold Overflows
  omega

theorem eq_some_iff (small : index < 26) (lead : first.toList = letter upper index :: rest)
    {number : UInt32} {ext : String} :
    partExtension first number = .ok (some ext) ↔
      1 ≤ number.toNat ∧ number.toNat ≤ lastNumber index ∧
        ext = String.ofList (spelled upper index number.toNat) := by
  rw [partExtension_eq small lead]
  by_cases inside : 1 ≤ number.toNat ∧ number.toNat ≤ lastNumber index
  · rw [if_neg (not_overflows small inside.2), if_pos inside]
    simp [inside.1, inside.2, eq_comm]
  · rw [if_neg inside]
    refine iff_of_false ?_ fun all => inside ⟨all.1, all.2.1⟩
    split <;> simp

theorem extensionOf?_eq (small : index < 26) (lead : first.toList = letter upper index :: rest)
    {number : Nat} (near : number ≤ lastNumber index + 1) :
    EvidenceParts.extensionOf? first number =
      if 1 ≤ number ∧ number ≤ lastNumber index then
        some (String.ofList (spelled upper index number))
      else none := by
  have size : UInt32.size = 4294967296 := rfl
  have last : lastNumber index = 99 + 676 * (26 - index) := rfl
  have same : (UInt32.ofNat number).toNat = number := UInt32.toNat_ofNat_of_lt' (by omega)
  have settled : ¬Overflows index number := by
    unfold Overflows
    omega
  rw [EvidenceParts.extensionOf?, partExtension_eq small lead, same, if_neg settled]
  by_cases inside : 1 ≤ number ∧ number ≤ lastNumber index
  · rw [if_pos inside, if_pos inside]
  · rw [if_neg inside, if_neg inside]

/-! ## Three characters of one case -/

def InCase (upper : Bool) (c : Char) : Prop := c.isAlpha = true ∧ c.isUpper = upper

/-- Three characters, a letter first, with all letters of one case. -/
structure Shaped (upper : Bool) (ext : List Char) : Prop where
  three : ext.length = 3
  led : ∀ c ∈ ext.head?, InCase upper c
  each : ∀ c ∈ ext, c.isDigit = true ∨ InCase upper c

theorem inCase_letter (upper : Bool) {index : Nat} (small : index < 26) :
    InCase upper (letter upper index) :=
  (by decide : ∀ upper : Bool, ∀ index < 26, (letter upper index).isAlpha = true ∧
    (letter upper index).isUpper = upper) upper index small

theorem isDigit_digitChar {digit : Nat} (small : digit < 10) :
    (Nat.digitChar digit).isDigit = true :=
  (by decide : ∀ digit < 10, (Nat.digitChar digit).isDigit = true) digit small

theorem shaped_letters (upper : Bool) {value : Nat} (bound : value < 17576) :
    Shaped upper (letters upper value) where
  three := rfl
  led := by
    rintro c ⟨⟩
    exact inCase_letter upper (by omega)
  each := by
    simp only [letters, List.forall_mem_cons]
    refine ⟨.inr (inCase_letter upper ?_), .inr (inCase_letter upper ?_),
      .inr (inCase_letter upper ?_), List.forall_mem_nil _⟩
    all_goals omega

theorem shaped_digits (upper : Bool) {number : Nat} (small : index < 26) (few : number ≤ 99) :
    Shaped upper (digits upper index number) where
  three := rfl
  led := by
    rintro c ⟨⟩
    exact inCase_letter upper small
  each := by
    simp only [digits, List.forall_mem_cons]
    refine ⟨.inr (inCase_letter upper small), .inl (isDigit_digitChar ?_),
      .inl (isDigit_digitChar ?_), List.forall_mem_nil _⟩
    all_goals omega

theorem shaped_spelled (upper : Bool) (small : index < 26) {number : Nat}
    (early : number ≤ lastNumber index) : Shaped upper (spelled upper index number) := by
  unfold spelled
  unfold lastNumber at early
  split
  · rename_i few
    exact shaped_digits upper small few
  · exact shaped_letters upper (by omega)

/-! ## The order -/

theorem letters_lt (upper : Bool) {low high : Nat} (lt : low < high) (bound : high < 17576) :
    letters upper low < letters upper high := by
  have lead : ∀ value : Nat, value / 676 = value / 26 / 26 :=
    fun value => (Nat.div_div_eq_div_mul value 26 26).symm
  simp only [letters, List.cons_lt_cons_iff, lead]
  rcases Text.div_lt_or_mod_lt lt 26 with less | ⟨same, last⟩
  · rcases Text.div_lt_or_mod_lt less 26 with first | ⟨same, middle⟩
    · exact .inl (letter_lt upper first (by omega))
    · exact .inr ⟨by rw [same], .inl (letter_lt upper middle (by omega))⟩
  · exact .inr ⟨by rw [same], .inr ⟨by rw [same], .inl (letter_lt upper last (by omega))⟩⟩

theorem digits_lt (upper : Bool) (index : Nat) {low high : Nat} (lt : low < high)
    (bound : high ≤ 99) : digits upper index low < digits upper index high := by
  simp only [digits, List.cons_lt_cons_iff]
  rcases Text.div_lt_or_mod_lt lt 10 with tens | ⟨same, ones⟩
  · exact .inr ⟨trivial, .inl (digitChar_lt tens (by omega))⟩
  · exact .inr ⟨trivial, .inr ⟨by rw [same], .inl (digitChar_lt ones (by omega))⟩⟩

theorem digits_lt_letters (upper : Bool) {number value : Nat} (few : number ≤ 99)
    (least : 676 * index ≤ value) (bound : value < 17576) :
    digits upper index number < letters upper value := by
  simp only [digits, letters, List.cons_lt_cons_iff]
  rcases Nat.lt_or_eq_of_le (show index ≤ value / 676 by omega) with less | same
  · exact .inl (letter_lt upper less (by omega))
  · exact .inr ⟨by rw [same], .inl (digitChar_lt_letter upper (by omega) (by omega))⟩

theorem spelled_lt (upper : Bool) {low high : Nat} (lt : low < high)
    (early : high ≤ lastNumber index) : spelled upper index low < spelled upper index high := by
  unfold lastNumber at early
  unfold spelled
  by_cases few : high ≤ 99
  · rw [if_pos few, if_pos (by omega)]
    exact digits_lt upper index lt few
  rw [if_neg few]
  by_cases few' : low ≤ 99
  · rw [if_pos few']
    exact digits_lt_letters upper few' (Nat.le_add_right _ _) (by omega)
  · rw [if_neg few']
    exact letters_lt upper (by omega) (by omega)

/-- The extensions increase as bytes up to the last number, and behind it there is none as long as
the sum of letter and number does not overflow. That it never does holds only for the letter `A`. -/
theorem extensions_increase (small : index < 26)
    (lead : first.toList = letter upper index :: rest) :
    (∀ number : UInt32, (∃ ext, partExtension first number = .ok (some ext)) ↔
      1 ≤ number.toNat ∧ number.toNat ≤ lastNumber index) ∧
    (∀ number ext, partExtension first number = .ok (some ext) → Shaped upper ext.toList) ∧
    (∀ (low high : UInt32) (lower higher : String), low < high →
      partExtension first low = .ok (some lower) → partExtension first high = .ok (some higher) →
      Text.utf8Bytes lower < Text.utf8Bytes higher) ∧
    (∀ number : UInt32, partExtension first number = .error ⟨⟩ ↔ Overflows index number.toNat) ∧
    (∀ number : UInt32, lastNumber index < number.toNat →
      (partExtension first number = .ok none ↔ ¬Overflows index number.toNat)) ∧
    ((∀ number : UInt32, lastNumber index < number.toNat → partExtension first number = .ok none) ↔
      index = 0) := by
  have size : UInt32.size = 2 ^ 32 := rfl
  have behind : ∀ number : UInt32, lastNumber index < number.toNat →
      (partExtension first number = .ok none ↔ ¬Overflows index number.toNat) := by
    intro number late
    have past : ¬(1 ≤ number.toNat ∧ number.toNat ≤ lastNumber index) := by omega
    rw [partExtension_eq small lead, if_neg past]
    split
    · rename_i beyond
      exact iff_of_false nofun fun settled => settled beyond
    · rename_i settled
      exact iff_of_true rfl settled
  refine ⟨fun number => ⟨?_, ?_⟩, fun number ext named => ?_,
    fun low high lower higher lt named named' => Text.utf8Bytes_lt (String.lt_iff.mpr ?_),
    eq_error_iff small lead, behind, fun ends => ?_, fun first number late => ?_⟩
  · rintro ⟨ext, named⟩
    obtain ⟨positive, early, -⟩ := (eq_some_iff small lead).mp named
    exact ⟨positive, early⟩
  · rintro ⟨positive, early⟩
    exact ⟨_, (eq_some_iff small lead).mpr ⟨positive, early, rfl⟩⟩
  · obtain ⟨-, early, rfl⟩ := (eq_some_iff small lead).mp named
    rw [String.toList_ofList]
    exact shaped_spelled upper small early
  · obtain ⟨-, -, rfl⟩ := (eq_some_iff small lead).mp named
    obtain ⟨-, early, rfl⟩ := (eq_some_iff small lead).mp named'
    rw [String.toList_ofList, String.toList_ofList]
    exact spelled_lt upper (UInt32.lt_iff_toNat_lt.mp lt) early
  · -- The greatest number overflows for every other letter.
    by_contra other
    have late : lastNumber index < (4294967295 : UInt32).toNat := by
      change 99 + 676 * (26 - index) < 4294967295
      omega
    apply (behind _ late).mp (ends _ late)
    change 4294967296 ≤ 676 * index + 4294967195
    omega
  · have bound := number.toNat_lt
    apply (behind number late).mpr
    unfold Overflows
    omega

theorem extensions_of_E01 :
    4 < 26 ∧ "E01".toList = letter true 4 :: ['0', '1'] ∧
      partExtension "E01" 99 = .ok (some "E99") ∧ partExtension "E01" 100 = .ok (some "EAA") ∧
      Text.utf8Bytes "E99" < Text.utf8Bytes "EAA" ∧
      partExtension "E01" 14971 = .ok (some "ZZZ") ∧ partExtension "E01" 14972 = .ok none ∧
      ¬∀ number : UInt32, lastNumber 4 < number.toNat → partExtension "E01" number = .ok none := by
  obtain ⟨-, -, order, -, behind, ends⟩ :=
    @extensions_increase "E01" true 4 ['0', '1'] (by decide) rfl
  have ninetyNine : partExtension "E01" 99 = .ok (some "E99") := by decide +kernel
  have hundred : partExtension "E01" 100 = .ok (some "EAA") := by decide +kernel
  refine ⟨by decide, rfl, ninetyNine, hundred, ?_, by decide +kernel, ?_,
    fun none => absurd (ends.mp none) (by decide)⟩
  · exact order 99 100 "E99" "EAA" (by decide) ninetyNine hundred
  · exact (behind 14972 (by decide)).mpr (by decide)

/-- The last of all numbers is far behind `ZZZ`, and asking for its extension ends in an
overflow. -/
theorem extension_of_last_number :
    lastNumber 4 < (4294967295 : UInt32).toNat ∧
      partExtension "E01" 4294967295 = .error ⟨⟩ ∧
      partExtension "E01" 4294967295 ≠ .ok none := by
  have late : partExtension "E01" 4294967295 = .error ⟨⟩ := by decide +kernel
  refine ⟨by decide, late, ?_⟩
  rw [late]
  exact nofun

end PartExtension

end EvidencePages

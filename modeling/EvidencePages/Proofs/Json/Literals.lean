import EvidencePages.Json.Printed
import EvidencePages.Proofs.Json.Grammar

/-!
# Literals of whole numbers

Of all numerals, those of digits alone are the printed whole numbers, and each
number is printed as one of them.
-/

set_option autoImplicit false

namespace EvidencePages.Json

/-! ## From the literal -/

theorem digitChar_of_digit {c : Char} (digit : Digit c) :
    ∃ d < 10, c = Nat.digitChar d ∧ (c ≠ '0' → 0 < d) := by
  obtain ⟨low, high⟩ := digit
  have low : 48 ≤ c.toNat := low
  have high : c.toNat ≤ 57 := high
  have same : c = Nat.digitChar (c.toNat - 48) := by
    rw [← Char.toNat_inj, Nat.toNat_digitChar_of_lt_ten (by omega)]
    omega
  refine ⟨c.toNat - 48, by omega, same, fun other => Nat.pos_of_ne_zero fun zero => other ?_⟩
  rw [same, zero]
  rfl

theorem toDigits_ofDigitChars {lead : Nat} (some : 0 < lead) {digits : List Char}
    (all : ∀ c ∈ digits, Digit c) :
    Nat.toDigits 10 (Nat.ofDigitChars 10 digits lead) = Nat.toDigits 10 lead ++ digits := by
  induction digits generalizing lead with
  | nil => rw [Nat.ofDigitChars_nil, List.append_nil]
  | cons c digits ih =>
    obtain ⟨d, small, rfl, -⟩ := digitChar_of_digit (all c List.mem_cons_self)
    rw [Nat.ofDigitChars_cons_digitChar_of_lt_ten small,
      ih (by omega) fun other inside => all other (List.mem_cons_of_mem _ inside),
      ← Nat.toDigits_append_toDigits (by decide) some small, Nat.toDigits_of_lt_base small,
      List.append_assoc, List.singleton_append]

theorem toDigits_of_whole {literal : List Char} (whole : Whole literal) :
    Nat.toDigits 10 (Nat.ofDigitChars 10 literal 0) = literal := by
  cases whole with
  | zero => rfl
  | digits digits lead =>
    obtain ⟨some, all⟩ := digits
    cases literal with
    | nil => exact absurd rfl some
    | cons c rest =>
      obtain ⟨d, small, rfl, positive⟩ := digitChar_of_digit (all c List.mem_cons_self)
      have other : Nat.digitChar d ≠ '0' := fun zero => lead (congrArg _ zero)
      rw [Nat.ofDigitChars_cons_digitChar_of_lt_ten small, Nat.mul_zero, Nat.zero_add,
        toDigits_ofDigitChars (positive other) fun c inside =>
          all c (List.mem_cons_of_mem _ inside),
        Nat.toDigits_of_lt_base small, List.singleton_append]

theorem whole_of_numeral {literal : List Char} (numeral : Numeral literal)
    (all : ∀ c ∈ literal, Digit c) : Whole literal := by
  cases numeral with
  | @parts sign whole fraction exponent sign_eq isWhole isFraction isExponent =>
    simp only [List.mem_append] at all
    have unsigned : sign = [] := by
      rcases sign_eq with rfl | rfl
      · rfl
      · exact absurd (all '-' (.inl (.inl (.inl List.mem_cons_self)))) (by decide)
    have closed : fraction = [] := by
      cases isFraction with
      | none => rfl
      | digits => exact absurd (all '.' (.inl (.inr List.mem_cons_self))) (by decide)
    have plain : exponent = [] := by
      cases isExponent with
      | none => rfl
      | digits mark_eq =>
        have digit := all _ (.inr List.mem_cons_self)
        rcases mark_eq with rfl | rfl <;> exact absurd digit (by decide)
    rw [unsigned, closed, plain, List.nil_append, List.append_nil, List.append_nil]
    exact isWhole

/-! ## From the number -/

theorem digit_of_mem_toDigits {n : Nat} {c : Char} (inside : c ∈ Nat.toDigits 10 n) :
    Digit c := by
  have digit := Nat.isDigit_of_mem_toDigits (by decide) (by decide) inside
  simpa [Char.isDigit, Digit, Char.le_def] using digit

theorem head?_toDigits {n : Nat} (positive : 0 < n) : (Nat.toDigits 10 n).head? ≠ some '0' := by
  induction n using Nat.strongRecOn with
  | ind n ih =>
    by_cases small : n < 10
    · rw [Nat.toDigits_of_lt_base small]
      intro zero
      have none : n = 0 := Nat.digitChar_eq_zero.mp (Option.some.inj zero)
      omega
    · rw [Nat.toDigits_of_base_le (by decide) (by omega), List.head?_append,
        Option.or_of_isSome (List.isSome_head?.mpr Nat.toDigits_ne_nil)]
      exact ih (n / 10) (by omega) (by omega)

theorem whole_toDigits (n : Nat) : Whole (Nat.toDigits 10 n) := by
  rcases Nat.eq_zero_or_pos n with rfl | positive
  · exact .zero
  · exact .digits ⟨Nat.toDigits_ne_nil, fun _ => digit_of_mem_toDigits⟩ (head?_toDigits positive)

theorem numeral_toDigits (n : Nat) : Numeral (Nat.toDigits 10 n) := by
  have parts := Numeral.parts (.inl rfl) (whole_toDigits n) .none .none
  rwa [List.nil_append, List.append_nil, List.append_nil] at parts

theorem Value.ofNat_inj {m n : Nat} (same : Value.ofNat m = .ofNat n) : m = n := by
  have literals : Nat.toDigits 10 m = Nat.toDigits 10 n := Value.number.inj same
  calc
    m = Nat.ofDigitChars 10 (Nat.toDigits 10 m) 0 := Nat.ofDigitChars_ten_toDigits.symm
    _ = Nat.ofDigitChars 10 (Nat.toDigits 10 n) 0 := by rw [literals]
    _ = n := Nat.ofDigitChars_ten_toDigits

end EvidencePages.Json

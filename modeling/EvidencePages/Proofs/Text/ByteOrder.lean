import Mathlib.Tactic.SplitIfs
import Mathlib.Data.List.Basic

/-!
# The order of texts as bytes

Texts are compared by their characters, and names on a disk by their bytes. The
two orders are one: in UTF-8 the bytes of a smaller character come before those
of a greater one, whatever follows them.
-/

set_option autoImplicit false

namespace EvidencePages.Text

def utf8Bytes (text : String) : List UInt8 := text.toByteArray.data.toList

theorem utf8Bytes_eq (text : String) :
    utf8Bytes text = text.toList.flatMap String.utf8EncodeChar := by
  rw [utf8Bytes, ← String.utf8Encode_toList]
  exact List.toList_data_toByteArray

theorem ofNat_cons_lt {low high : Nat} {rest other : List UInt8} (low_lt : low < 256)
    (high_lt : high < 256) :
    UInt8.ofNat low :: rest < UInt8.ofNat high :: other ↔
      low < high ∨ low = high ∧ rest < other := by
  rw [List.cons_lt_cons_iff, UInt8.lt_iff_toNat_lt, ← UInt8.toNat_inj,
    UInt8.toNat_ofNat_of_lt' low_lt, UInt8.toNat_ofNat_of_lt' high_lt]

theorem div_lt_or_mod_lt {v w : Nat} (lt : v < w) (base : Nat) :
    v / base < w / base ∨ v / base = w / base ∧ v % base < w % base := by
  rcases Nat.lt_or_eq_of_le (Nat.div_le_div_right (Nat.le_of_lt lt)) with less | same
  · exact .inl less
  · have left := Nat.div_add_mod v base
    have right := Nat.div_add_mod w base
    rw [same] at left
    exact .inr ⟨same, by omega⟩

theorem utf8EncodeChar_append_lt {c d : Char} (lt : c < d) (rest other : List UInt8) :
    String.utf8EncodeChar c ++ rest < String.utf8EncodeChar d ++ other := by
  have order : c.val.toNat < d.val.toNat := lt
  have bound : d.val.toNat < 0x110000 := by
    rcases d.valid with low | ⟨-, high⟩
    · exact Nat.lt_trans low (by decide)
    · exact high
  have groups : ∀ value : Nat,
      value / 4096 = value / 64 / 64 ∧ value / 262144 = value / 4096 / 64 :=
    fun value => ⟨(Nat.div_div_eq_div_mul value 64 64).symm,
      (Nat.div_div_eq_div_mul value 4096 64).symm⟩
  have low := groups c.val.toNat
  have high := groups d.val.toNat
  unfold String.utf8EncodeChar
  dsimp only
  generalize c.val.toNat = v at *
  generalize d.val.toNat = w at *
  -- the groups of six bits, the last one first
  have last := div_lt_or_mod_lt order 64
  have third := fun less : v / 64 < w / 64 => div_lt_or_mod_lt less 64
  have second := fun less : v / 4096 < w / 4096 => div_lt_or_mod_lt less 64
  rw [← low.1, ← high.1] at third
  rw [← low.2, ← high.2] at second
  have lead : v / 262144 % 8 = v / 262144 ∧ w / 262144 % 8 = w / 262144 := by omega
  split_ifs
  all_goals
    simp (disch := omega) only [List.cons_append, List.nil_append, ofNat_cons_lt]
    omega

theorem flatMap_utf8EncodeChar_lt {a b : List Char} (lt : a < b) :
    a.flatMap String.utf8EncodeChar < b.flatMap String.utf8EncodeChar := by
  induction a generalizing b with
  | nil =>
    cases b with
    | nil => exact absurd lt (List.lt_irrefl [])
    | cons d other =>
      cases bytes : String.utf8EncodeChar d with
      | nil => exact absurd bytes String.utf8EncodeChar_ne_nil
      | cons byte more =>
        rw [List.flatMap_nil, List.flatMap_cons, bytes]
        exact List.nil_lt_cons _ _
  | cons c rest ih =>
    cases b with
    | nil => exact absurd lt (List.not_lt_nil _)
    | cons d other =>
      rw [List.flatMap_cons, List.flatMap_cons]
      rcases List.cons_lt_cons_iff.mp lt with smaller | ⟨rfl, behind⟩
      · exact utf8EncodeChar_append_lt smaller _ _
      · exact List.append_left_lt (ih behind)

theorem utf8Bytes_lt {a b : String} (lt : a < b) : utf8Bytes a < utf8Bytes b := by
  rw [utf8Bytes_eq, utf8Bytes_eq]
  exact flatMap_utf8EncodeChar_lt (String.lt_iff.mp lt)

end EvidencePages.Text

import EvidencePages.Proofs.Bytes
import EvidencePages.Text.Decode

/-!
# Texts read back from their bytes

Reading bytes never fails, and what is no text is replaced. Nothing is replaced
in the bytes of a text: each character is read back from where it was written,
in UTF-8 and in UTF-16, where the characters past the first plane are pairs of
surrogates. A list of codes is a text exactly if its surrogates stand in pairs.
-/

set_option autoImplicit false

namespace EvidencePages.Text

/-! ## UTF-8 -/

theorem utf8From_encoded (front : ByteArray) (text : List Char) :
    utf8From (front ++ text.utf8Encode) front.size = text := by
  induction text generalizing front with
  | nil =>
    rw [List.utf8Encode_nil, ByteArray.append_empty, utf8From, if_neg (Nat.lt_irrefl _)]
  | cons c rest ih =>
    have step : (front ++ [c].utf8Encode).size = front.size + c.utf8Size := by
      rw [ByteArray.size_append, List.utf8Encode_singleton, List.size_toByteArray,
        String.length_utf8EncodeChar]
    have more := ih (front ++ [c].utf8Encode)
    rw [ByteArray.append_assoc, ← List.utf8Encode_cons, step] at more
    have there : (front ++ (c :: rest).utf8Encode).utf8DecodeChar? front.size = some c := by
      rw [ByteArray.utf8DecodeChar?_eq_utf8DecodeChar?_extract, ByteArray.size_append,
        ByteArray.extract_append_eq_right rfl rfl]
      exact List.utf8DecodeChar?_utf8Encode_cons
    have inside : front.size < (front ++ (c :: rest).utf8Encode).size :=
      ByteArray.lt_size_of_isSome_utf8DecodeChar? (there ▸ rfl)
    rw [utf8From, if_pos inside, there]
    dsimp only
    rw [more]

theorem utf8_toUTF8 (text : String) : utf8 text.toUTF8 = text.toList := by
  have whole := utf8From_encoded .empty text.toList
  rwa [ByteArray.empty_append, String.utf8Encode_toList] at whole

/-! ## UTF-16 -/

def unitsOf (c : Char) : List Nat :=
  if c.toNat < 0x10000 then [c.toNat]
  else [0xD800 + (c.toNat - 0x10000) / 0x400, 0xDC00 + (c.toNat - 0x10000) % 0x400]

def utf16Bytes (text : List Char) : ByteArray :=
  ofBytes ((text.flatMap unitsOf).flatMap (littleEndianBytes 2))

theorem toNat_cases (c : Char) :
    c.toNat < 0xD800 ∨ 0xE000 ≤ c.toNat ∧ c.toNat < 0x110000 := by
  have valid : c.toNat.isValidChar := c.valid
  unfold Nat.isValidChar at valid
  omega

theorem lt_of_mem_unitsOf {c : Char} {unit : Nat} (listed : unit ∈ unitsOf c) :
    unit < 0x10000 := by
  have known := toNat_cases c
  unfold unitsOf at listed
  split at listed
  · rw [List.mem_singleton.mp listed]
    assumption
  · rcases List.mem_cons.mp listed with first | second
    · omega
    · have last := List.mem_singleton.mp second
      omega

theorem isHighSurrogate_iff (code : Nat) :
    isHighSurrogate code = true ↔ 0xD800 ≤ code ∧ code < 0xDC00 := by
  simp [isHighSurrogate]

theorem isLowSurrogate_iff (code : Nat) :
    isLowSurrogate code = true ↔ 0xDC00 ≤ code ∧ code < 0xE000 := by
  simp [isLowSurrogate]

theorem not_surrogate_iff (code : Nat) :
    ¬(isHighSurrogate code || isLowSurrogate code) = true ↔ code < 0xD800 ∨ 0xE000 ≤ code := by
  rw [Bool.or_eq_true, isHighSurrogate_iff, isLowSurrogate_iff]
  omega

theorem ofUnits_unitsOf_append (c : Char) (rest : List Nat) :
    ofUnits (unitsOf c ++ rest) = c :: ofUnits rest := by
  have known := toNat_cases c
  unfold unitsOf
  split
  · have plain : ¬(isHighSurrogate c.toNat || isLowSurrogate c.toNat) = true :=
      (not_surrogate_iff c.toNat).mpr (by omega)
    have alone : single c.toNat = c := by
      rw [single, if_neg plain, Char.ofNat_toNat]
    cases rest with
    | nil => exact congrArg (· :: []) alone
    | cons next rest =>
      rw [List.singleton_append, ofUnits,
        if_neg fun both => plain (by rw [(Bool.and_eq_true_iff.mp both).1, Bool.true_or]), alone]
  · have high : isHighSurrogate (0xD800 + (c.toNat - 0x10000) / 0x400) = true :=
      (isHighSurrogate_iff _).mpr (by omega)
    have low : isLowSurrogate (0xDC00 + (c.toNat - 0x10000) % 0x400) = true :=
      (isLowSurrogate_iff _).mpr (by omega)
    have number : 0x10000 + (0xD800 + (c.toNat - 0x10000) / 0x400 - 0xD800) * 0x400 +
        (0xDC00 + (c.toNat - 0x10000) % 0x400 - 0xDC00) = c.toNat := by
      omega
    rw [List.cons_append, List.singleton_append, ofUnits, high, low, Bool.true_and,
      if_pos rfl, pair, number, Char.ofNat_toNat]

theorem ofUnits_unitsOf (text : List Char) : ofUnits (text.flatMap unitsOf) = text := by
  induction text with
  | nil => rfl
  | cons c rest ih => rw [List.flatMap_cons, ofUnits_unitsOf_append, ih]

theorem units_littleEndianBytes {codes : List Nat} (narrow : ∀ code ∈ codes, code < 0x10000) :
    units (codes.flatMap (littleEndianBytes 2)) = codes := by
  induction codes with
  | nil => rfl
  | cons code rest ih =>
    have bound := narrow code List.mem_cons_self
    have low : (UInt8.ofNat code).toNat = code % 256 := UInt8.toNat_ofNat'
    have high : (UInt8.ofNat (code / 256)).toNat = code / 256 :=
      UInt8.toNat_ofNat_of_lt' (show code / 256 < 256 by omega)
    rw [List.flatMap_cons, littleEndianBytes, littleEndianBytes, littleEndianBytes,
      List.cons_append, List.cons_append, List.nil_append, units, low, high, Nat.mod_add_div,
      ih fun later listed => narrow later (List.mem_cons_of_mem _ listed)]

theorem utf16_utf16Bytes (text : List Char) : utf16 (utf16Bytes text) = text := by
  have narrow : ∀ unit ∈ text.flatMap unitsOf, unit < 0x10000 := by
    intro unit listed
    obtain ⟨c, -, own⟩ := List.mem_flatMap.mp listed
    exact lt_of_mem_unitsOf own
  rw [utf16, utf16Bytes, toList_ofBytes, units_littleEndianBytes narrow, ofUnits_unitsOf]

example : (utf16Bytes ['𝄞']).data.toList = [0x34, 0xD8, 0x1E, 0xDD] := by decide

/-! ## Codes with surrogates in pairs -/

/-- Codes of which every surrogate is half of a pair. -/
inductive Paired : List Nat → Prop
  | nil : Paired []
  | single {code : Nat} {codes : List Nat} (plain : code < 0xD800 ∨ 0xE000 ≤ code)
    (rest : Paired codes) : Paired (code :: codes)
  | pair {high low : Nat} {codes : List Nat} (isHigh : 0xD800 ≤ high ∧ high < 0xDC00)
    (isLow : 0xDC00 ≤ low ∧ low < 0xE000) (rest : Paired codes) : Paired (high :: low :: codes)

theorem paired_of_ofCodes? {codes : List Nat} {text : List Char}
    (read : ofCodes? codes = some text) : Paired codes := by
  fun_induction ofCodes? codes generalizing text with
  | case1 => exact .nil
  | case2 => cases read
  | case3 code plain => exact .single ((not_surrogate_iff code).mp plain) .nil
  | case4 code next rest both ih =>
    obtain ⟨high, low⟩ := Bool.and_eq_true_iff.mp both
    obtain ⟨after, found, -⟩ := Option.map_eq_some_iff.mp read
    exact .pair ((isHighSurrogate_iff code).mp high) ((isLowSurrogate_iff next).mp low) (ih found)
  | case5 => cases read
  | case6 code next rest _ plain ih =>
    obtain ⟨after, found, -⟩ := Option.map_eq_some_iff.mp read
    exact .single ((not_surrogate_iff code).mp plain) (ih found)

theorem ofCodes?_single {code : Nat} (plain : code < 0xD800 ∨ 0xE000 ≤ code) (codes : List Nat) :
    ofCodes? (code :: codes) = (ofCodes? codes).map (Char.ofNat code :: ·) := by
  have alone := (not_surrogate_iff code).mpr plain
  have low : ¬isHighSurrogate code = true := fun high => alone (by rw [high, Bool.true_or])
  cases codes with
  | nil => simp only [ofCodes?, if_neg alone, Option.map_some]
  | cons next rest =>
    rw [ofCodes?, if_neg fun both => low (Bool.and_eq_true_iff.mp both).1, if_neg alone]

theorem ofCodes?_pair {high low : Nat} (isHigh : 0xD800 ≤ high ∧ high < 0xDC00)
    (isLow : 0xDC00 ≤ low ∧ low < 0xE000) (codes : List Nat) :
    ofCodes? (high :: low :: codes) = (ofCodes? codes).map (pair high low :: ·) := by
  have both : (isHighSurrogate high && isLowSurrogate low) = true :=
    Bool.and_eq_true_iff.mpr ⟨(isHighSurrogate_iff high).mpr isHigh,
      (isLowSurrogate_iff low).mpr isLow⟩
  rw [ofCodes?, if_pos both]

theorem exists_ofCodes? {codes : List Nat} (paired : Paired codes) :
    ∃ text, ofCodes? codes = some text := by
  induction paired with
  | nil => exact ⟨[], rfl⟩
  | single plain _ ih =>
    obtain ⟨text, read⟩ := ih
    exact ⟨_, by rw [ofCodes?_single plain, read, Option.map_some]⟩
  | pair isHigh isLow _ ih =>
    obtain ⟨text, read⟩ := ih
    exact ⟨_, by rw [ofCodes?_pair isHigh isLow, read, Option.map_some]⟩

theorem isSome_ofCodes?_iff (codes : List Nat) : (ofCodes? codes).isSome = true ↔ Paired codes := by
  rw [Option.isSome_iff_exists]
  constructor
  · rintro ⟨text, read⟩
    exact paired_of_ofCodes? read
  · exact exists_ofCodes?

instance (codes : List Nat) : Decidable (Paired codes) :=
  decidable_of_iff _ (isSome_ofCodes?_iff codes)

theorem ofCodes?_map_toNat (text : List Char) : ofCodes? (text.map Char.toNat) = some text := by
  induction text with
  | nil => rfl
  | cons c text ih =>
    have plain : c.toNat < 0xD800 ∨ 0xE000 ≤ c.toNat := by
      have known := toNat_cases c
      omega
    rw [List.map_cons, ofCodes?_single plain, ih, Option.map_some, Char.ofNat_toNat]

theorem toNat_ofNat_of_isValidChar {code : Nat} (valid : code.isValidChar) :
    (Char.ofNat code).toNat = code := by
  rw [Char.ofNat, dif_pos valid]
  rfl

theorem eq_map_toNat_of_ofCodes? {codes : List Nat} {text : List Char}
    (narrow : ∀ c ∈ text, 0 < c.toNat ∧ c.toNat < 0x10000) (read : ofCodes? codes = some text) :
    codes = text.map Char.toNat := by
  induction paired_of_ofCodes? read generalizing text with
  | nil => cases read; rfl
  | @single code codes plain _ ih =>
    rw [ofCodes?_single plain] at read
    obtain ⟨after, found, rfl⟩ := Option.map_eq_some_iff.mp read
    have first := (narrow _ List.mem_cons_self).1
    -- A number that is no character's would be read as zero.
    have valid : code.isValidChar := by
      apply Decidable.byContradiction
      intro not_valid
      rw [Char.ofNat, dif_neg not_valid] at first
      exact absurd first (by decide)
    rw [List.map_cons, ← ih (fun c inside => narrow c (List.mem_cons_of_mem _ inside)) found,
      toNat_ofNat_of_isValidChar valid]
  | @pair high low codes isHigh isLow _ _ =>
    rw [ofCodes?_pair isHigh isLow] at read
    obtain ⟨after, found, rfl⟩ := Option.map_eq_some_iff.mp read
    -- A pair would be read as a character past the first plane.
    have first := (narrow _ List.mem_cons_self).2
    have valid : (0x10000 + (high - 0xD800) * 0x400 + (low - 0xDC00)).isValidChar := by
      unfold Nat.isValidChar
      omega
    rw [pair, toNat_ofNat_of_isValidChar valid] at first
    omega

end EvidencePages.Text

import EvidencePages.Config.Text
import EvidencePages.Proofs.Json.Literals
import EvidencePages.Proofs.Json.Reading
import EvidencePages.Proofs.Text.Encodings

/-!
# What a configuration text says

An object is read member by member, but what comes out depends on what it
gives for each setting alone: nothing, and the setting has its default; one
value that the setting admits, and it has that value; anything else, and the
object is refused. The order of the members is of no account, nor are the
members of other names, as long as every name is text.
-/

set_option autoImplicit false

namespace EvidencePages

namespace Setting

/-! ## Counts -/

theorem decimal_eq (digits : List Char) : decimal digits = Nat.ofDigitChars 10 digits 0 := by
  simp only [decimal, Nat.ofDigitChars, Nat.mul_comm]

theorem all_isDigit_iff (literal : List Char) :
    literal.all Json.Token.isDigit = true ↔ ∀ c ∈ literal, Json.Digit c := by
  simp only [List.all_eq_true, Json.Token.isDigit_iff]

theorem count?_eq_some_iff {literal : List Char} (numeral : Json.Numeral literal) (n : Nat) :
    count? literal = some n ↔ n < Config.sizeLimit ∧ literal = Nat.toDigits 10 n := by
  rw [count?, decimal_eq]
  simp only [Bool.and_eq_true, all_isDigit_iff, decide_eq_true_eq]
  constructor
  · intro counted
    split at counted
    · rename_i both
      have printed := Json.toDigits_of_whole (Json.whole_of_numeral numeral both.1)
      cases counted
      exact ⟨both.2, printed.symm⟩
    · cases counted
  · rintro ⟨small, rfl⟩
    rw [Nat.ofDigitChars_ten_toDigits,
      if_pos ⟨fun c inside => Json.digit_of_mem_toDigits inside, small⟩]

/-! ## One setting -/

/-- The values that a setting can have: for the flag a boolean, for the others an unsigned integer
of 64 bits. -/
def Admits : Setting → Json.Value → Prop
  | .reportReadErrors, value => ∃ flag, value = .bool flag
  | _, value => ∃ n < Config.sizeLimit, value = .ofNat n

def valueIn (config : Config) : Setting → Json.Value
  | .pageSize => .ofNat config.pageSize
  | .margin => .ofNat config.margin
  | .reportReadErrors => .bool config.reportReadErrors
  | .maxOpenFiles => .ofNat config.maxOpenFiles

theorem config_ext {config other : Config}
    (same : ∀ setting, valueIn config setting = valueIn other setting) : config = other := by
  cases config
  cases other
  rw [Config.mk.injEq]
  exact ⟨Json.Value.ofNat_inj (same .pageSize), Json.Value.ofNat_inj (same .margin),
    Json.Value.bool.inj (same .reportReadErrors), Json.Value.ofNat_inj (same .maxOpenFiles)⟩

variable {setting : Setting} {value : Json.Value} {config next : Config}

theorem exists_apply (admits : setting.Admits value) (config : Config) :
    ∃ next, setting.apply value config = some next := by
  cases setting with
  | reportReadErrors =>
    obtain ⟨flag, rfl⟩ := admits
    exact ⟨_, rfl⟩
  | _ =>
    obtain ⟨n, small, rfl⟩ := admits
    have counted := (count?_eq_some_iff (Json.numeral_toDigits n) n).mpr ⟨small, rfl⟩
    exact ⟨_, congrArg (Option.map _) counted⟩

theorem of_apply (numeral : ∀ literal, value = .number literal → Json.Numeral literal)
    (applied : setting.apply value config = some next) :
    setting.Admits value ∧ valueIn next setting = value ∧
      ∀ other, other ≠ setting → valueIn next other = valueIn config other := by
  cases value with
  | number literal =>
    cases setting with
    | reportReadErrors => cases applied
    | _ =>
      obtain ⟨n, counted, rfl⟩ := Option.map_eq_some_iff.mp applied
      obtain ⟨small, rfl⟩ := (count?_eq_some_iff (numeral _ rfl) n).mp counted
      refine ⟨⟨n, small, rfl⟩, rfl, fun other apart => ?_⟩
      cases other <;> first | rfl | exact absurd rfl apart
  | bool flag =>
    cases setting with
    | reportReadErrors =>
      cases applied
      refine ⟨⟨flag, rfl⟩, rfl, fun other apart => ?_⟩
      cases other <;> first | rfl | exact absurd rfl apart
    | _ => cases applied
  | _ => cases setting <;> cases applied

/-! ## Names -/

def codes (setting : Setting) : List Nat := setting.name.toList.map Char.toNat

theorem ofName?_eq_some_iff (name : List Char) (setting : Setting) :
    ofName? name = some setting ↔ name = setting.name.toList := by
  constructor
  · intro found
    have named := List.find?_some (show all.find? _ = _ from found)
    exact (of_decide_eq_true named).symm
  · rintro rfl
    cases setting <;> decide

theorem codes_inj {setting other : Setting} (same : setting.codes = other.codes) :
    setting = other := by
  cases setting <;> cases other <;> first | rfl | exact absurd same (by decide)

theorem ofName?_ofCodes? {codes : List Nat} {name : List Char}
    (read : Text.ofCodes? codes = some name) (setting : Setting) :
    ofName? name = some setting ↔ codes = setting.codes := by
  rw [ofName?_eq_some_iff]
  constructor
  · rintro rfl
    refine Text.eq_map_toNat_of_ofCodes? (fun c inside => ?_) read
    have narrow : setting.name.toList.all (fun c => 0 < c.toNat && c.toNat < 0x10000) = true := by
      cases setting <;> decide
    simpa using List.all_eq_true.mp narrow c inside
  · rintro rfl
    rw [Setting.codes, Text.ofCodes?_map_toNat, Option.some_inj] at read
    exact read.symm

/-! ## The members of an object -/

def given (setting : Setting) (members : List (List Nat × Json.Value)) : List Json.Value :=
  (members.filter (·.1 = setting.codes)).map (·.2)

theorem given_cons_self (setting : Setting) (value : Json.Value)
    (members : List (List Nat × Json.Value)) :
    setting.given ((setting.codes, value) :: members) = value :: setting.given members := by
  simp [given]

theorem given_cons_of_ne {codes : List Nat} (other : codes ≠ setting.codes) (value : Json.Value)
    (members : List (List Nat × Json.Value)) :
    setting.given ((codes, value) :: members) = setting.given members := by
  simp [given, other]

/-- What the given values make of the setting: it stays as it is or becomes the only one. -/
def Settles (setting : Setting) (config final : Config) : List Json.Value → Prop
  | [] => valueIn final setting = valueIn config setting
  | [value] => setting.Admits value ∧ valueIn final setting = value
  | _ => False

theorem settles_cons_iff {values : List Json.Value} (config final : Config) :
    setting.Settles config final (value :: values) ↔
      values = [] ∧ setting.Admits value ∧ valueIn final setting = value := by
  cases values <;> simp [Settles]

end Setting

namespace Config

open Setting

variable {codes : List Nat} {value : Json.Value} {members : List (List Nat × Json.Value)}
  {config next final : Config} {named : List Setting} {setting : Setting}

theorem ofMembers_cons_of_not_text (unread : Text.ofCodes? codes = none) :
    config.ofMembers named ((codes, value) :: members) = none := by
  rw [ofMembers, unread]

theorem ofMembers_cons_of_unknown {name : List Char} (read : Text.ofCodes? codes = some name)
    (unknown : Setting.ofName? name = none) :
    config.ofMembers named ((codes, value) :: members) = config.ofMembers named members := by
  rw [ofMembers, read]
  dsimp only
  rw [unknown]

theorem ofMembers_cons_of_known (setting : Setting) :
    config.ofMembers named ((setting.codes, value) :: members) =
      if setting ∈ named then none
      else (setting.apply value config).bind (ofMembers · (setting :: named) members) := by
  have read := Text.ofCodes?_map_toNat setting.name.toList
  rw [ofMembers, Setting.codes, read]
  dsimp only
  rw [(ofName?_eq_some_iff _ setting).mpr rfl]
  simp only [List.contains_iff_mem]

/-- Each setting comes to what the object gives for it, and none is given that was named before. -/
def Reads (config : Config) (named : List Setting) (members : List (List Nat × Json.Value))
    (final : Config) : Prop :=
  ∀ setting : Setting, setting.Settles config final (setting.given members) ∧
    (setting ∈ named → setting.given members = [])

theorem reads_cons_of_ne (other : ∀ setting : Setting, codes ≠ setting.codes) :
    config.Reads named ((codes, value) :: members) final ↔ config.Reads named members final := by
  simp only [Reads, given_cons_of_ne (other _)]

theorem not_reads_of_not_admits (refused : ¬setting.Admits value) :
    ¬config.Reads named ((setting.codes, value) :: members) final := by
  intro reads
  have settles := (reads setting).1
  rw [given_cons_self, settles_cons_iff] at settles
  exact refused settles.2.1

theorem not_reads_of_mem (known : setting ∈ named) :
    ¬config.Reads named ((setting.codes, value) :: members) final := by
  intro reads
  have none := (reads setting).2 known
  rw [given_cons_self] at none
  cases none

theorem reads_cons_of_apply (numeral : ∀ literal, value = .number literal → Json.Numeral literal)
    (fresh : setting ∉ named) (applied : setting.apply value config = some next) :
    config.Reads named ((setting.codes, value) :: members) final ↔
      next.Reads (setting :: named) members final := by
  obtain ⟨admits, set, kept⟩ := of_apply numeral applied
  refine forall_congr' fun other => ?_
  by_cases same : other = setting
  · -- Named from here on, the setting must not be given by what follows.
    subst same
    rw [given_cons_self, settles_cons_iff]
    constructor
    · rintro ⟨⟨none, -, own⟩, -⟩
      rw [none]
      exact ⟨own.trans set.symm, fun _ => rfl⟩
    · rintro ⟨settles, once⟩
      have none := once List.mem_cons_self
      rw [none] at settles
      exact ⟨⟨none, admits, Eq.trans settles set⟩, fun known => absurd known fresh⟩
  · have apart : setting.codes ≠ other.codes := fun equal => same (codes_inj equal).symm
    have unchanged : ∀ values, other.Settles config final values ↔
        other.Settles next final values := by
      intro values
      cases values with
      | nil => rw [Settles, Settles, kept other same]
      | cons value values => rw [settles_cons_iff, settles_cons_iff]
    rw [given_cons_of_ne apart, unchanged, List.mem_cons, or_iff_right same]

/-- An object is read as a configuration exactly if its names are text and each setting, by
itself, comes to what the configuration has. -/
theorem ofMembers_eq_some_iff
    (numerals : ∀ member ∈ members, ∀ literal, member.2 = .number literal → Json.Numeral literal) :
    config.ofMembers named members = some final ↔
      (∀ member ∈ members, Text.Paired member.1) ∧ config.Reads named members final := by
  -- One member settles its own setting at most, and what it settled cannot come again.
  induction members generalizing config named with
  | nil =>
    have same : config = final ↔ config.Reads named [] final := by
      constructor
      · rintro rfl
        exact fun _ => ⟨rfl, fun _ => rfl⟩
      · exact fun reads => config_ext fun setting => (reads setting).1.symm
    simp [ofMembers, same]
  | cons member members ih =>
    obtain ⟨codes, value⟩ := member
    rw [List.forall_mem_cons] at numerals
    rw [List.forall_mem_cons]
    cases read : Text.ofCodes? codes with
    | none =>
      have unpaired : ¬Text.Paired codes := by
        rw [← Text.isSome_ofCodes?_iff, read]
        exact Bool.false_ne_true
      simp [ofMembers_cons_of_not_text read, unpaired]
    | some name =>
      have paired := Text.paired_of_ofCodes? read
      cases found : Setting.ofName? name with
      | none =>
        have other : ∀ setting : Setting, codes ≠ setting.codes := by
          intro setting same
          rw [(ofName?_ofCodes? read setting).mpr same] at found
          cases found
        simp only [ofMembers_cons_of_unknown read found, reads_cons_of_ne other, paired, true_and,
          ih numerals.2]
      | some setting =>
        obtain rfl := (ofName?_ofCodes? read setting).mp found
        rw [ofMembers_cons_of_known]
        by_cases known : setting ∈ named
        · simp [known, not_reads_of_mem known]
        · rw [if_neg known]
          cases applied : setting.apply value config with
          | none =>
            have refused : ¬setting.Admits value := by
              intro admits
              obtain ⟨next, some⟩ := exists_apply admits config
              rw [applied] at some
              cases some
            simp [not_reads_of_not_admits refused]
          | some next =>
            simp only [Option.bind_some, reads_cons_of_apply numerals.1 known applied, paired,
              true_and, ih numerals.2]

/-! ## The text -/

theorem ofText_of_ofMembers_none {text : List Char}
    (written : Json.WrittenItem (.object members) text) (refused : ofMembers {} [] members = none) :
    ofText text = .error .malformedJson := by
  rw [ofText, Json.Value.ofText?_eq written, Option.bind_some, ofValue?, refused]

theorem ofText_of_ofMembers {text : List Char} (written : Json.WrittenItem (.object members) text)
    (read : ofMembers {} [] members = some final) (valid : final.validate = .ok ()) :
    ofText text = .ok final := by
  rw [ofText, Json.Value.ofText?_eq written, Option.bind_some, ofValue?, read]
  dsimp only
  rw [valid]

theorem validate_of_ofText {text : List Char} (read : ofText text = .ok config) :
    config.validate = .ok () := by
  rw [ofText] at read
  split at read
  · cases read
  · split at read
    · cases read
    · rename_i valid
      cases read
      exact valid

theorem numeral_of_object {text : List Char} (written : Json.WrittenItem (.object members) text) :
    ∀ member ∈ members, ∀ literal, member.2 = .number literal → Json.Numeral literal := by
  intro member listed literal same
  obtain ⟨own, inner⟩ := Json.exists_item_of_object written member listed
  rw [same] at inner
  exact Json.numeral_of_item inner

def Fits (config : Config) : Prop :=
  config.pageSize < sizeLimit ∧ config.margin < sizeLimit ∧ config.maxOpenFiles < sizeLimit

instance (config : Config) : Decidable config.Fits := inferInstanceAs (Decidable (_ ∧ _ ∧ _))

theorem Fits.admits (fits : config.Fits) (setting : Setting) :
    setting.Admits (valueIn config setting) := by
  obtain ⟨pageSize, margin, maxOpenFiles⟩ := fits
  cases setting with
  | pageSize => exact ⟨_, pageSize, rfl⟩
  | margin => exact ⟨_, margin, rfl⟩
  | reportReadErrors => exact ⟨_, rfl⟩
  | maxOpenFiles => exact ⟨_, maxOpenFiles, rfl⟩

/-- An object gives each setting of the configuration once, or leaves it out where it is the
default. -/
def StatedBy (config : Config) (members : List (List Nat × Json.Value)) : Prop :=
  ∀ setting : Setting, setting.given members = [valueIn config setting] ∨
    setting.given members = [] ∧ valueIn config setting = valueIn {} setting

theorem StatedBy.reads (stated : config.StatedBy members) (fits : config.Fits) :
    Config.Reads {} [] members config := by
  intro setting
  refine ⟨?_, fun known => absurd known List.not_mem_nil⟩
  rcases stated setting with once | ⟨none, default⟩
  · rw [once]
    exact ⟨fits.admits setting, rfl⟩
  · rw [none]
    exact default

theorem not_reads_of_given
    (wrong : 1 < (setting.given members).length ∨
      ∃ value ∈ setting.given members, ¬setting.Admits value) :
    ¬config.Reads named members final := by
  intro reads
  have settles := (reads setting).1
  cases values : setting.given members with
  | nil => simp [values] at wrong
  | cons value others =>
    rw [values, settles_cons_iff] at settles
    obtain ⟨rfl, admits, -⟩ := settles
    simp [values, admits] at wrong

/-- An object whose names are text is read as the configuration it states; one with another name,
or with a setting that is repeated or has a value of another kind, is refused; and what is read is
valid, whatever the text was. -/
theorem ofText_by_settings :
    (∀ (members : List (List Nat × Json.Value)) (text : List Char) (config : Config),
      Json.WrittenItem (.object members) text → config.StatedBy members → config.Fits →
      0 < config.pageSize → 0 < config.maxOpenFiles →
        ((∀ member ∈ members, Text.Paired member.1) → ofText text = .ok config) ∧
        (¬(∀ member ∈ members, Text.Paired member.1) → ofText text = .error .malformedJson)) ∧
    (∀ (members : List (List Nat × Json.Value)) (text : List Char) (setting : Setting),
      Json.WrittenItem (.object members) text →
      (1 < (setting.given members).length ∨
        ∃ value ∈ setting.given members, ¬setting.Admits value) →
      ofText text = .error .malformedJson) ∧
    ∀ (text : List Char) (config : Config), ofText text = .ok config →
      config.validate = .ok () := by
  refine ⟨?_, ?_, fun text config => validate_of_ofText⟩
  · intro members text config written stated fits pageSize maxOpenFiles
    have numerals := numeral_of_object written
    constructor
    · intro paired
      exact ofText_of_ofMembers written
        ((ofMembers_eq_some_iff numerals).mpr ⟨paired, stated.reads fits⟩)
        (validate_eq_ok.mpr ⟨pageSize, maxOpenFiles⟩)
    · intro unpaired
      refine ofText_of_ofMembers_none written (Option.eq_none_iff_forall_ne_some.mpr ?_)
      exact fun final read => unpaired ((ofMembers_eq_some_iff numerals).mp read).1
  · intro members text setting written wrong
    refine ofText_of_ofMembers_none written (Option.eq_none_iff_forall_ne_some.mpr ?_)
    exact fun final read =>
      not_reads_of_given wrong ((ofMembers_eq_some_iff (numeral_of_object written)).mp read).2

def sampleText : List Char :=
  ("\x7b\"page\\u005fsize\" : 65536, \"x\":[null,\x7b\"a\":-1.5e3\x7d],\n" ++
    "\"report_read_errors\":false\x7d").toList

def sampleMembers : List (List Nat × Json.Value) :=
  [(Setting.pageSize.codes, .ofNat 65536),
    ([0x78], .array [.null, .object [([0x61], .number ['-', '1', '.', '5', 'e', '3'])]]),
    (Setting.reportReadErrors.codes, .bool false)]

theorem sampleText_written : Json.WrittenItem (.object sampleMembers) sampleText := by
  have none : Json.Blank [] := nofun
  have space : Json.Blank [' '] := by simp [Json.Blank]
  have line : Json.Blank ['\n'] := by simp [Json.Blank]
  have digits : ∀ c ∈ ['1', '3', '5'], Json.Digits [c] := by simp [Json.Digits, Json.Digit]
  have underscore : Json.SpelledCode 0x5F ['\\', 'u', '0', '0', '5', 'f'] :=
    .number (.digit (n := 0) (by decide)) (.digit (n := 0) (by decide))
      (.digit (n := 5) (by decide)) (.lower (n := 5) (by decide))
  have pageSize : Json.Spelled Setting.pageSize.codes ("page\\u005fsize".toList) :=
    (Json.spelled_of_plain "page".toList (by decide)).append
      (.cons underscore (Json.spelled_of_plain "size".toList (by decide)))
  have count : Json.WrittenItem (.ofNat 65536) " 65536".toList :=
    .item space (.number (Json.numeral_toDigits 65536)) none
  have numeral : Json.Numeral ['-', '1', '.', '5', 'e', '3'] :=
    .parts (.inr rfl) (.digits (digits '1' (by decide)) (by decide))
      (.digits (digits '5' (by decide))) (.digits (.inl rfl) (.inl rfl) (digits '3' (by decide)))
  have object : Json.WrittenItem (.object [([0x61], .number ['-', '1', '.', '5', 'e', '3'])])
      "\x7b\"a\":-1.5e3\x7d".toList :=
    .item none (.object (.last (.member none (Json.spelled_of_plain ['a'] (by decide))
      none (.item none (.number numeral) none)))) none
  have other : Json.WrittenMember sampleMembers[1] " \"x\":[null,\x7b\"a\":-1.5e3\x7d]".toList :=
    .member space (Json.spelled_of_plain ['x'] (by decide)) none
      (.item none (.array (.more (.item none .null none) (.last object))) none)
  have flag : Json.WrittenMember sampleMembers[2] "\n\"report_read_errors\":false".toList :=
    .member line (Json.spelled_of_plain "report_read_errors".toList (by decide)) none
      (.item none .false none)
  exact .item none (.object (.more (.member none pageSize space count)
    (.more other (.last flag)))) none

def sampleConfig : Config := { pageSize := 65536, reportReadErrors := false }

theorem sampleConfig_statedBy : sampleConfig.StatedBy sampleMembers := by
  intro setting
  cases setting with
  | pageSize => exact .inl rfl
  | margin => exact .inr ⟨rfl, rfl⟩
  | reportReadErrors => exact .inl rfl
  | maxOpenFiles => exact .inr ⟨rfl, rfl⟩

def twiceText : List Char := "\x7b\"margin\":1,\"margin\":1\x7d".toList

def twiceMembers : List (List Nat × Json.Value) :=
  [(Setting.margin.codes, .ofNat 1), (Setting.margin.codes, .ofNat 1)]

theorem twiceText_written : Json.WrittenItem (.object twiceMembers) twiceText := by
  have none : Json.Blank [] := nofun
  have margin : Json.WrittenMember (Setting.margin.codes, .ofNat 1) "\"margin\":1".toList :=
    .member none (Json.spelled_of_plain "margin".toList (by decide)) none
      (.item none (.number (Json.numeral_toDigits 1)) none)
  exact .item none (.object (.more margin (.last margin))) none

theorem ofText_samples :
    (Json.WrittenItem (.object sampleMembers) sampleText ∧ sampleConfig.StatedBy sampleMembers ∧
      sampleConfig.Fits ∧ 0 < sampleConfig.pageSize ∧ 0 < sampleConfig.maxOpenFiles ∧
      ofText sampleText = .ok sampleConfig) ∧
    (Json.WrittenItem (.object twiceMembers) twiceText ∧
      1 < (Setting.margin.given twiceMembers).length ∧
      ofText twiceText = .error .malformedJson) ∧
    sampleConfig.validate = .ok () := by
  obtain ⟨stated, wrong, valid⟩ := ofText_by_settings
  have fits : sampleConfig.Fits := by decide
  have paired : ∀ member ∈ sampleMembers, Text.Paired member.1 := by decide
  have read := (stated sampleMembers sampleText sampleConfig sampleText_written
    sampleConfig_statedBy fits (by decide) (by decide)).1 paired
  exact ⟨⟨sampleText_written, sampleConfig_statedBy, fits, by decide, by decide, read⟩,
    ⟨twiceText_written, by decide,
      wrong twiceMembers twiceText .margin twiceText_written (.inl (by decide))⟩,
    valid sampleText sampleConfig read⟩

/-- A name that spells half of a surrogate pair is no text, so an object with it is refused even
where the member is of no account. -/
theorem ofText_of_half_pair :
    Json.WrittenItem (.object [([0xD800], .ofNat 0)]) "\x7b\"\\ud800\":0\x7d".toList ∧
      Config.StatedBy {} [([0xD800], .ofNat 0)] ∧ Config.Fits {} ∧
      0 < ({} : Config).pageSize ∧ 0 < ({} : Config).maxOpenFiles ∧
      ofText "\x7b\"\\ud800\":0\x7d".toList = .error .malformedJson := by
  have none : Json.Blank [] := nofun
  have half : Json.SpelledCode 0xD800 ['\\', 'u', 'd', '8', '0', '0'] :=
    .number (.lower (n := 3) (by decide)) (.digit (n := 8) (by decide))
      (.digit (n := 0) (by decide)) (.digit (n := 0) (by decide))
  have written : Json.WrittenItem (.object [([0xD800], .ofNat 0)])
      "\x7b\"\\ud800\":0\x7d".toList :=
    .item none (.object (.last (.member none (.cons half .nil) none
      (.item none (.number (Json.numeral_toDigits 0)) none)))) none
  have stated : Config.StatedBy {} [([0xD800], .ofNat 0)] := by
    intro setting
    cases setting <;> exact .inr ⟨rfl, rfl⟩
  exact ⟨written, stated, by decide, by decide, by decide, ofText_of_ofMembers_none written rfl⟩

end Config

end EvidencePages

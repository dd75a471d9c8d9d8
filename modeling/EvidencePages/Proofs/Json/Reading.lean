import EvidencePages.Proofs.Json.Grammar

/-!
# Written values are read back

A text that is written for a value by the grammar is cut into tokens at the
right places, and the value is read off them: whatever spelling was chosen for
its strings, however deep it is, and with all the white space.
-/

set_option autoImplicit false

namespace EvidencePages.Json

namespace Token

/-! ## Strings -/

theorem hexDigit?_eq {c : Char} {n : Nat} (digit : HexDigit c n) : hexDigit? c = some n := by
  cases digit with
  | digit h => exact (by decide : ∀ n < 10, hexDigit? (Char.ofNat (0x30 + n)) = some n) _ h
  | upper h => exact (by decide : ∀ n < 6, hexDigit? (Char.ofNat (0x41 + n)) = some (10 + n)) _ h
  | lower h => exact (by decide : ∀ n < 6, hexDigit? (Char.ofNat (0x61 + n)) = some (10 + n)) _ h

theorem escaped?_eq : ∀ entry ∈ escapes, escaped? entry.1 = some entry.2 ∧ entry.1 ≠ 'u' := by
  decide

theorem stringBody_spelledCode {code : Nat} {piece : List Char} (spelled : SpelledCode code piece)
    (rest : List Char) :
    stringBody (piece ++ rest) =
      (stringBody rest).map fun (codes, after) => (code :: codes, after) := by
  cases spelled with
  | @plain c quote backslash visible =>
    have plain : isPlain c = true := by simp [isPlain, quote, backslash, visible]
    simp [stringBody, plain, backslash]
  | @escape letter code listed =>
    obtain ⟨known, other⟩ := escaped?_eq _ listed
    simp [stringBody, known, other]
  | number first second third fourth =>
    simp [stringBody, hexNumber?, hexDigit?_eq first, hexDigit?_eq second, hexDigit?_eq third,
      hexDigit?_eq fourth]

theorem stringBody_spelled {codes : List Nat} {text : List Char} (spelled : Spelled codes text)
    (rest : List Char) : stringBody (text ++ '"' :: rest) = some (codes, rest) := by
  induction spelled with
  | nil => simp [stringBody]
  | cons first _ ih => rw [List.append_assoc, stringBody_spelledCode first, ih, Option.map_some]

/-! ## Numbers -/

theorem isDigit_iff (c : Char) : isDigit c = true ↔ Digit c := by
  simp [isDigit, Digit]

def NoHead (p : Char → Bool) (text : List Char) : Prop :=
  ∀ c, text.head? = some c → p c = false

theorem NoHead.append {p : Char → Bool} {text rest : List Char} (none : NoHead p text)
    (behind : text = [] → NoHead p rest) : NoHead p (text ++ rest) := by
  cases text with
  | nil => exact behind rfl
  | cons c tail => exact none

theorem takeWhile_digits {digits rest : List Char} (all : ∀ c ∈ digits, Digit c)
    (stop : NoHead isDigit rest) : (digits ++ rest).takeWhile isDigit = digits := by
  rw [List.takeWhile_append_of_pos fun c inside => (isDigit_iff c).mpr (all c inside)]
  cases rest with
  | nil => simp
  | cons c tail => simp [stop c rfl]

theorem digitsAfter_eq (lead : List Char) {digits rest : List Char} (isDigits : Digits digits)
    (stop : NoHead isDigit rest) : digitsAfter lead (digits ++ rest) = lead ++ digits := by
  rw [digitsAfter, takeWhile_digits isDigits.2 stop]
  cases digits with
  | nil => exact absurd rfl isDigits.1
  | cons c tail => rfl

theorem wholePart_eq {whole rest : List Char} (isWhole : Whole whole)
    (stop : NoHead isDigit rest) : wholePart (whole ++ rest) = whole := by
  cases isWhole with
  | zero => rfl
  | digits digits lead =>
    rw [wholePart.eq_def]
    split
    · rename_i tail same
      cases whole with
      | nil => exact absurd rfl digits.1
      | cons c tail =>
        cases same
        exact absurd rfl lead
    · exact takeWhile_digits digits.2 stop

theorem fractionPart_eq {fraction rest : List Char} (isFraction : Fraction fraction)
    (stop : NoHead isDigit rest) (point : NoHead (· = '.') rest) :
    fractionPart (fraction ++ rest) = fraction := by
  cases isFraction with
  | none =>
    rw [List.nil_append, fractionPart.eq_def]
    split
    · exact absurd (point '.' rfl) (by decide)
    · rfl
  | digits digits => exact digitsAfter_eq ['.'] digits stop

theorem exponentPart_eq {exponent rest : List Char} (isExponent : Exponent exponent)
    (stop : NoHead isDigit rest) (mark : NoHead isExponentMark rest) :
    exponentPart (exponent ++ rest) = exponent := by
  cases isExponent with
  | none =>
    cases rest with
    | nil => rfl
    | cons c tail =>
      rw [List.nil_append, exponentPart.eq_def]
      dsimp only
      rw [mark c rfl]
      rfl
  | @digits mark sign text mark_eq sign_eq digits =>
    have marked : isExponentMark mark = true := by rcases mark_eq with rfl | rfl <;> rfl
    have after := digitsAfter_eq (mark :: sign) digits stop
    rcases sign_eq with rfl | rfl | rfl
    · -- Without a sign the digits follow the mark at once.
      cases text with
      | nil => exact absurd rfl digits.1
      | cons c tail =>
        have digit := digits.2 c (List.mem_cons_self ..)
        have unsigned : isSign c = false := by
          have plus : c ≠ '+' := digit.ne (by decide)
          have minus : c ≠ '-' := digit.ne (by decide)
          simp [isSign, plus, minus]
        simp only [List.cons_append, List.nil_append] at after ⊢
        rw [exponentPart.eq_def]
        simp only [marked, unsigned, if_true, Bool.false_eq_true, if_false, after]
    · simp only [List.cons_append, List.nil_append] at after ⊢
      rw [exponentPart.eq_def]
      simp only [marked, if_true, after]
      rfl
    · simp only [List.cons_append, List.nil_append] at after ⊢
      rw [exponentPart.eq_def]
      simp only [marked, if_true, after]
      rfl

/-- What comes behind a value: white space, a separator, a closing bracket or nothing. -/
def Follows (rest : List Char) : Prop :=
  ∀ c, rest.head? = some c → isBlank c = true ∨ c = ',' ∨ c = ']' ∨ c = '\x7d'

theorem Follows.noHead {rest : List Char} (follows : Follows rest) {p : Char → Bool}
    (none : [' ', '\n', '\t', '\r', ',', ']', '\x7d'].any p = false) : NoHead p rest := by
  intro c first
  rw [List.any_eq_false] at none
  refine Bool.eq_false_iff.mpr (none c ?_)
  rcases follows c first with blank | rfl | rfl | rfl
  · simp only [isBlank, Bool.or_eq_true, decide_eq_true_eq] at blank
    rcases blank with ((rfl | rfl) | rfl) | rfl <;> decide
  all_goals decide

theorem follows_cons {c : Char} (separates : c ∈ [',', ']', '\x7d']) (rest : List Char) :
    Follows (c :: rest) := by
  intro first same
  cases same
  simp only [List.mem_cons, List.not_mem_nil, or_false] at separates
  exact .inr separates

theorem NoHead.of_fraction {p : Char → Bool} (none : p '.' = false) {fraction : List Char}
    (isFraction : Fraction fraction) : NoHead p fraction := by
  cases isFraction with
  | none => exact nofun
  | digits _ =>
    intro c first
    cases first
    exact none

theorem NoHead.of_exponent {p : Char → Bool} (none : ['e', 'E'].any p = false)
    {exponent : List Char} (isExponent : Exponent exponent) : NoHead p exponent := by
  cases isExponent with
  | none => exact nofun
  | digits mark_eq _ _ =>
    intro c first
    cases first
    rw [List.any_eq_false] at none
    refine Bool.eq_false_iff.mpr (none _ ?_)
    rcases mark_eq with rfl | rfl <;> decide

theorem exists_digit_of_whole {whole : List Char} (isWhole : Whole whole) :
    ∃ c tail, whole = c :: tail ∧ Digit c := by
  cases isWhole with
  | zero => exact ⟨'0', [], rfl, by decide⟩
  | digits digits _ =>
    cases whole with
    | nil => exact absurd rfl digits.1
    | cons c tail => exact ⟨c, tail, rfl, digits.2 c (List.mem_cons_self ..)⟩

theorem signPart_eq {sign whole : List Char} (sign_eq : sign = [] ∨ sign = ['-'])
    (isWhole : Whole whole) (rest : List Char) : signPart (sign ++ (whole ++ rest)) = sign := by
  rcases sign_eq with rfl | rfl
  · obtain ⟨c, tail, rfl, digit⟩ := exists_digit_of_whole isWhole
    rw [List.nil_append, List.cons_append, signPart.eq_def]
    split
    · rename_i same
      exact absurd (List.cons.inj same).1 (digit.ne (by decide))
    · rfl
  · rfl

theorem number?_eq {literal rest : List Char} (numeral : Numeral literal) (follows : Follows rest) :
    number? (literal ++ rest) = some literal := by
  cases numeral with
  | @parts sign whole fraction exponent sign_eq isWhole isFraction isExponent =>
    have digit : NoHead isDigit (exponent ++ rest) :=
      (NoHead.of_exponent (by decide) isExponent).append fun _ => follows.noHead (by decide)
    have point : NoHead (· = '.') (exponent ++ rest) :=
      (NoHead.of_exponent (by decide) isExponent).append fun _ => follows.noHead (by decide)
    have behind : NoHead isDigit (fraction ++ (exponent ++ rest)) :=
      (NoHead.of_fraction (by decide) isFraction).append fun _ => digit
    have some : whole ≠ [] := by
      obtain ⟨c, tail, rfl, -⟩ := exists_digit_of_whole isWhole
      exact List.cons_ne_nil c tail
    have signed : signPart (sign ++ whole ++ fraction ++ exponent ++ rest) = sign := by
      simp only [List.append_assoc]
      exact signPart_eq sign_eq isWhole _
    have afterSign : (sign ++ whole ++ fraction ++ exponent ++ rest).drop sign.length =
        whole ++ (fraction ++ (exponent ++ rest)) := by
      simp only [List.append_assoc, List.drop_left]
    have afterWhole : (sign ++ whole ++ fraction ++ exponent ++ rest).drop (sign ++ whole).length =
        fraction ++ (exponent ++ rest) := by
      rw [List.append_assoc (sign ++ whole), List.append_assoc (sign ++ whole), List.drop_left,
        List.append_assoc]
    have afterFraction : (sign ++ whole ++ fraction ++ exponent ++ rest).drop
        (sign ++ whole ++ fraction).length = exponent ++ rest := by
      rw [List.append_assoc (sign ++ whole ++ fraction), List.drop_left]
    rw [number?]
    simp only [signed, afterSign, wholePart_eq isWhole behind, some, if_false, afterWhole,
      fractionPart_eq isFraction digit point, afterFraction,
      exponentPart_eq isExponent (follows.noHead (by decide)) (follows.noHead (by decide))]

/-! ## Tokens -/

theorem exists_head_of_numeral {literal : List Char} (numeral : Numeral literal) :
    ∃ c tail, literal = c :: tail ∧ (c = '-' ∨ Digit c) := by
  cases numeral with
  | parts sign_eq isWhole _ _ =>
    obtain ⟨c, tail, rfl, digit⟩ := exists_digit_of_whole isWhole
    rcases sign_eq with rfl | rfl
    · exact ⟨c, _, rfl, .inr digit⟩
    · exact ⟨'-', _, rfl, .inl rfl⟩

theorem next?_numeral {literal rest : List Char} (numeral : Numeral literal)
    (follows : Follows rest) : next? (literal ++ rest) = some (.number literal, rest) := by
  have read := number?_eq numeral follows
  obtain ⟨c, tail, same, head⟩ := exists_head_of_numeral numeral
  have apart : ∀ other, other ≠ '-' → ¬Digit other → c ≠ other := by
    intro other minus digit
    rcases head with rfl | is
    · exact minus.symm
    · exact is.ne digit
  rw [next?.eq_def]
  split
  case h_11 => rw [read, Option.map_some, List.drop_left]
  all_goals
    rename_i whole
    rw [same] at whole
    exact absurd (List.cons.inj whole).1 (apart _ (by decide) (by decide))

theorem next?_string {codes : List Nat} {text : List Char} (spelled : Spelled codes text)
    (rest : List Char) : next? ('"' :: (text ++ '"' :: rest)) = some (.string codes, rest) := by
  rw [next?, stringBody_spelled spelled, Option.map_some]

theorem isBlank_of_blank {gap : List Char} (blank : Blank gap) {c : Char} (inside : c ∈ gap) :
    isBlank c = true := by
  rcases blank c inside with rfl | rfl | rfl | rfl <;> rfl

theorem next?_of_isBlank {c : Char} (blank : isBlank c = true) (rest : List Char) :
    next? (c :: rest) = none := by
  simp only [isBlank, Bool.or_eq_true, decide_eq_true_eq] at blank
  rcases blank with ((rfl | rfl) | rfl) | rfl <;>
    simp [next?, number?, signPart, wholePart, isDigit]

theorem ofText?_gap {gap : List Char} (blank : Blank gap) (text : List Char) :
    ofText? (gap ++ text) = ofText? text := by
  induction gap with
  | nil => rfl
  | cons c gap ih =>
    rw [List.cons_append, ofText?, if_pos (isBlank_of_blank blank (List.mem_cons_self ..)),
      ih fun other inside => blank other (List.mem_cons_of_mem _ inside)]

theorem ofText?_token {text rest : List Char} {token : Token}
    (found : next? text = some (token, rest)) :
    ofText? text = (ofText? rest).map (token :: ·) := by
  cases text with
  | nil => simp [next?, number?, signPart, wholePart] at found
  | cons c tail =>
    have solid : ¬isBlank c = true := by
      intro blank
      rw [next?_of_isBlank blank] at found
      cases found
    rw [ofText?, if_neg solid]
    split
    · rename_i none
      rw [found] at none
      cases none
    · rename_i some
      rw [found] at some
      cases some
      rfl

theorem ofText?_of_none {c : Char} {text : List Char} (solid : ¬isBlank c = true)
    (stuck : next? (c :: text) = none) : ofText? (c :: text) = none := by
  rw [ofText?, if_neg solid]
  split
  · rfl
  · rename_i found
    rw [stuck] at found
    cases found

theorem eq_of_next?_closeArray {c : Char} {text rest : List Char}
    (found : next? (c :: text) = some (.closeArray, rest)) : c = ']' := by
  rw [next?.eq_def] at found
  split at found
  case h_2 same => exact (List.cons.inj same).1
  all_goals simp at found

end Token

/-! ## Values -/

namespace Value

def readFrom (expecting : Expecting) (opened : List Open) (text : List Char) : Option Value :=
  (Token.ofText? text).bind (read? expecting opened)

variable {expecting next : Expecting} {opened above : List Open}

theorem readFrom_gap {gap : List Char} (blank : Blank gap) (text : List Char) :
    readFrom expecting opened (gap ++ text) = readFrom expecting opened text := by
  rw [readFrom, Token.ofText?_gap blank, readFrom]

theorem readFrom_token {text rest : List Char} {token : Token}
    (found : Token.next? text = some (token, rest))
    (step : step? expecting opened token = some (next, above)) :
    readFrom expecting opened text = readFrom next above rest := by
  rw [readFrom, Token.ofText?_token found, readFrom]
  cases Token.ofText? rest with
  | none => rfl
  | some tokens =>
    rw [Option.map_some, Option.bind_some, Option.bind_some, read?, step]

theorem readFrom_congr {other : Expecting} {below : List Open} {c : Char} {text : List Char}
    (solid : ¬Token.isBlank c = true)
    (same : ∀ token rest, Token.next? (c :: text) = some (token, rest) →
      step? expecting opened token = step? other below token) :
    readFrom expecting opened (c :: text) = readFrom other below (c :: text) := by
  cases found : Token.next? (c :: text) with
  | none =>
    rw [readFrom, readFrom, Token.ofText?_of_none solid found]
    rfl
  | some taken =>
    obtain ⟨token, rest⟩ := taken
    rw [readFrom, readFrom, Token.ofText?_token found]
    cases Token.ofText? rest with
    | none => rfl
    | some tokens =>
      rw [Option.map_some, Option.bind_some, Option.bind_some, read?, read?, same token rest found]

theorem readFrom_itemOrEnd {c : Char} (solid : ¬Token.isBlank c = true) (item : c ≠ ']')
    (items : List Value) (opened : List Open) (text : List Char) :
    readFrom .itemOrEnd (.array items :: opened) (c :: text) =
      readFrom .value (.array items :: opened) (c :: text) := by
  apply readFrom_congr solid
  intro token rest found
  have other : token ≠ .closeArray := by
    rintro rfl
    exact item (Token.eq_of_next?_closeArray found)
  cases token <;> first | rfl | exact absurd rfl other

theorem readFrom_memberOrEnd (members : List (List Nat × Value)) (opened : List Open)
    (text : List Char) :
    readFrom (.memberOrEnd members) opened ('"' :: text) =
      readFrom (.member members) opened ('"' :: text) := by
  apply readFrom_congr (by decide)
  intro token rest found
  rw [Token.next?, Option.map_eq_some_iff] at found
  obtain ⟨read, -, same⟩ := found
  cases same
  rfl

theorem exists_head_of_written {value : Value} {text : List Char} (written : Written value text) :
    ∃ c tail, text = c :: tail ∧ ¬Token.isBlank c = true ∧ c ≠ ']' := by
  cases written with
  | number numeral =>
    obtain ⟨c, tail, same, head⟩ := Token.exists_head_of_numeral numeral
    refine ⟨c, tail, same, ?_⟩
    rcases head with rfl | digit
    · decide
    · refine ⟨fun blank => ?_, digit.ne (by decide)⟩
      simp only [Token.isBlank, Bool.or_eq_true, decide_eq_true_eq] at blank
      rcases blank with ((rfl | rfl) | rfl) | rfl <;> exact absurd digit (by decide)
  | _ => exact ⟨_, _, rfl, by decide, by decide⟩

theorem exists_head_of_item {value : Value} {text : List Char} (written : WrittenItem value text) :
    ∃ gap c tail, Blank gap ∧ text = gap ++ c :: tail ∧ ¬Token.isBlank c = true ∧ c ≠ ']' := by
  cases written with
  | @item _ before _ after blank inner behind =>
    obtain ⟨c, tail, rfl, solid, item⟩ := exists_head_of_written inner
    exact ⟨before, c, tail ++ after, blank, by simp, solid, item⟩

theorem exists_head_of_member {member : List Nat × Value} {text : List Char}
    (written : WrittenMember member text) :
    ∃ gap tail, Blank gap ∧ text = gap ++ '"' :: tail := by
  cases written with
  | @member name value before spelling between text blank =>
    exact ⟨before, spelling ++ '"' :: between ++ ':' :: text, blank, by simp⟩

theorem readFrom_firstItem {items : List Value} {text : List Char}
    (listed : WrittenItems items text) (opened : List Open) (rest : List Char) :
    readFrom .itemOrEnd (.array [] :: opened) (text ++ rest) =
      readFrom .value (.array [] :: opened) (text ++ rest) := by
  obtain ⟨gap, c, tail, blank, rfl, solid, item⟩ : ∃ gap c tail, Blank gap ∧
      text = gap ++ c :: tail ∧ ¬Token.isBlank c = true ∧ c ≠ ']' := by
    cases listed with
    | last written => exact exists_head_of_item written
    | @more _ _ _ others written =>
      obtain ⟨gap, c, tail, blank, rfl, head⟩ := exists_head_of_item written
      exact ⟨gap, c, tail ++ ',' :: others, blank, by simp, head⟩
  rw [List.append_assoc, readFrom_gap blank, readFrom_gap blank]
  exact readFrom_itemOrEnd solid item [] opened _

theorem readFrom_firstMember {members : List (List Nat × Value)} {text : List Char}
    (listed : WrittenMembers members text) (opened : List Open) (rest : List Char) :
    readFrom (.memberOrEnd []) opened (text ++ rest) =
      readFrom (.member []) opened (text ++ rest) := by
  obtain ⟨gap, tail, blank, rfl⟩ : ∃ gap tail, Blank gap ∧ text = gap ++ '"' :: tail := by
    cases listed with
    | last written => exact exists_head_of_member written
    | @more _ _ _ others written =>
      obtain ⟨gap, tail, blank, rfl⟩ := exists_head_of_member written
      exact ⟨gap, tail ++ ',' :: others, blank, by simp⟩
  rw [List.append_assoc, readFrom_gap blank, readFrom_gap blank]
  exact readFrom_memberOrEnd [] opened _

theorem follows_gap {gap rest : List Char} (blank : Blank gap) (follows : Token.Follows rest) :
    Token.Follows (gap ++ rest) := by
  cases gap with
  | nil => exact follows
  | cons c gap =>
    intro first same
    cases same
    exact .inl (Token.isBlank_of_blank blank (List.mem_cons_self ..))

mutual

theorem readFrom_written {value : Value} {text : List Char} (written : Written value text)
    (opened : List Open) {rest : List Char} (follows : Token.Follows rest) :
    readFrom .value opened (text ++ rest) = readFrom (.afterValue value) opened rest :=
  match written with
  | .null => readFrom_token rfl rfl
  | .true => readFrom_token rfl rfl
  | .false => readFrom_token rfl rfl
  | .number numeral => readFrom_token (Token.next?_numeral numeral follows) rfl
  | .string spelled => by
    rw [List.append_assoc, List.cons_append]
    exact readFrom_token (Token.next?_string spelled rest) rfl
  | .emptyArray blank => by
    rw [List.append_assoc, List.cons_append, readFrom_token rfl rfl, readFrom_gap blank]
    exact readFrom_token rfl rfl
  | .array listed => by
    rw [List.append_assoc, List.cons_append, readFrom_token rfl rfl, readFrom_firstItem listed]
    exact readFrom_items listed [] opened rest
  | .emptyObject blank => by
    rw [List.append_assoc, List.cons_append, readFrom_token rfl rfl, readFrom_gap blank]
    exact readFrom_token rfl rfl
  | .object listed => by
    rw [List.append_assoc, List.cons_append, readFrom_token rfl rfl, readFrom_firstMember listed]
    exact readFrom_members listed [] opened rest

theorem readFrom_item {value : Value} {text : List Char} (written : WrittenItem value text)
    (opened : List Open) {rest : List Char} (follows : Token.Follows rest) :
    readFrom .value opened (text ++ rest) = readFrom (.afterValue value) opened rest :=
  match written with
  | .item blank inner behind => by
    rw [List.append_assoc, List.append_assoc, readFrom_gap blank,
      readFrom_written inner opened (follows_gap behind follows), readFrom_gap behind]

theorem readFrom_items {items : List Value} {text : List Char} (listed : WrittenItems items text)
    (done : List Value) (opened : List Open) (rest : List Char) :
    readFrom .value (.array done :: opened) (text ++ ']' :: rest) =
      readFrom (.afterValue (.array (done.reverse ++ items))) opened rest :=
  match listed with
  | .last written => by
    rw [readFrom_item written _ (Token.follows_cons (by decide) _), ← List.reverse_cons]
    exact readFrom_token rfl rfl
  | .more written others => by
    rw [List.append_assoc, List.cons_append,
      readFrom_item written _ (Token.follows_cons (by decide) _), readFrom_token rfl rfl,
      readFrom_items others _ opened rest, List.reverse_cons, List.append_assoc]
    rfl

theorem readFrom_member {member : List Nat × Value} {text : List Char}
    (written : WrittenMember member text) (done : List (List Nat × Value)) (opened : List Open)
    {rest : List Char} (follows : Token.Follows rest) :
    readFrom (.member done) opened (text ++ rest) =
      readFrom (.afterValue member.2) (.object done member.1 :: opened) rest :=
  match written with
  | .member blank spelled gap inner => by
    simp only [List.append_assoc, List.cons_append]
    rw [readFrom_gap blank, readFrom_token (Token.next?_string spelled _) rfl, readFrom_gap gap,
      readFrom_token rfl rfl, readFrom_item inner _ follows]

theorem readFrom_members {members : List (List Nat × Value)} {text : List Char}
    (listed : WrittenMembers members text) (done : List (List Nat × Value)) (opened : List Open)
    (rest : List Char) :
    readFrom (.member done) opened (text ++ '\x7d' :: rest) =
      readFrom (.afterValue (.object (done.reverse ++ members))) opened rest :=
  match listed with
  | .last written => by
    rw [readFrom_member written _ _ (Token.follows_cons (by decide) _), ← List.reverse_cons]
    exact readFrom_token rfl rfl
  | .more written others => by
    rw [List.append_assoc, List.cons_append,
      readFrom_member written _ _ (Token.follows_cons (by decide) _), readFrom_token rfl rfl,
      readFrom_members others _ opened rest, List.reverse_cons, List.append_assoc]
    rfl

end

/-- A text that is written for a value is read as that value. -/
theorem ofText?_eq {value : Value} {text : List Char} (written : WrittenItem value text) :
    ofText? text = some value := by
  have follows : Token.Follows [] := nofun
  have read := readFrom_item written [] follows
  rw [List.append_nil] at read
  have ended : readFrom (.afterValue value) [] [] = some value := by
    rw [readFrom, Token.ofText?]
    rfl
  exact read.trans ended

end Value

end EvidencePages.Json

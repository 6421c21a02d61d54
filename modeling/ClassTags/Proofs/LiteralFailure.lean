import ClassTags.Literal.Escape
import ClassTags.Literal.Number
import ClassTags.Proofs.Lexeme
import Mathlib.Tactic.Ring

/-!
# Literals without a value

A literal that the grammar accepts has no value in two cases only. An escape by code point in braces
may name a number that is no code point, since the grammar does not bound its digits. And a numeral
of a zero and octal digits may be too long to be written in decimal, since it is always written as
an integer.

Main definitions:

* `Literal.spelled` — the number that digits spell;
* `Literal.EscapeFails`, `Literal.NumeralFails` — the literals without a value, and why they have none.

Main results:

* `Literal.escapeValue_eq_error_iff` — when an escape sequence has no value;
* `Literal.numberValue_eq_error_iff` — when a number literal has no value.
-/

namespace ClassTags.Literal

open Grammar

-- ---------------------------------------------------------------------------
-- Digits
-- ---------------------------------------------------------------------------

/-- The number that a digit stands for. -/
def digitOf (c : Char) : Nat :=
  if c.toNat ≤ 57 then c.toNat - 48 else if c.toNat ≤ 70 then c.toNat - 55 else c.toNat - 87

/-- The number that digits spell in a base. -/
def spelled (base : Nat) (digits : Text) : Nat := digits.foldl (fun n c => n * base + digitOf c) 0

/-- The digits of a base are read as what they stand for. -/
def IsDigitIn (base : Nat) (c : Char) : Prop := c ≠ '_' ∧ Number.digit? base c = some (digitOf c)

theorem digitOf_lt {c : Char} (h : isHexDigit c = true) : digitOf c < 16 := by
  rw [isHexDigit_iff] at h
  unfold digitOf
  split_ifs <;> omega

/-- Digits of a base of at most sixteen are read as what they stand for. -/
theorem isDigitIn {base : Nat} {c : Char} (hHex : isHexDigit c = true) (hBase : digitOf c < base) :
    IsDigitIn base c := by
  rw [isHexDigit_iff] at hHex
  have hUnderscore : c ≠ '_' := by
    rintro rfl
    simp at hHex
  refine ⟨hUnderscore, ?_⟩
  have hZero : ('0' ≤ c ∧ c ≤ '9') ↔ 48 ≤ c.toNat ∧ c.toNat ≤ 57 := Iff.rfl
  have hLower : ('a' ≤ c ∧ c ≤ 'z') ↔ 97 ≤ c.toNat ∧ c.toNat ≤ 122 := Iff.rfl
  have hUpper : ('A' ≤ c ∧ c ≤ 'Z') ↔ 65 ≤ c.toNat ∧ c.toNat ≤ 90 := Iff.rfl
  have hFilter : ∀ value, digitOf c = value → (some value).filter (· < base) = some (digitOf c) := by
    rintro value rfl
    rw [Option.filter_some, if_pos (decide_eq_true hBase)]
  simp only [Number.digit?, hZero, hLower, hUpper]
  rcases hHex with hCode | hCode | hCode
  · rw [if_pos hCode]
    exact hFilter _ (if_pos hCode.2)
  · rw [if_neg (by omega), if_pos (by omega)]
    refine hFilter _ ?_
    rw [digitOf, if_neg (by omega), if_neg (by omega)]
    omega
  · rw [if_neg (by omega), if_neg (by omega), if_pos (by omega)]
    refine hFilter _ ?_
    rw [digitOf, if_neg (by omega), if_pos (by omega)]
    omega

/-- An octal digit is a hexadecimal one worth less than eight. -/
theorem isHexDigit_of_isOctalDigit {c : Char} (h : isOctalDigit c = true) :
    isHexDigit c = true ∧ digitOf c < 8 := by
  have hCode : 48 ≤ c.toNat ∧ c.toNat ≤ 55 := by
    simp only [isOctalDigit, Bool.and_eq_true, decide_eq_true_eq] at h
    exact h
  refine ⟨isHexDigit_iff.mpr (by omega), ?_⟩
  unfold digitOf
  split_ifs <;> omega

/-- Digits add to the number that has been read before them. -/
theorem continueDigits?_eq {base : Nat} {digits : Text} (h : ∀ c ∈ digits, IsDigitIn base c)
    (value : Nat) :
    Number.continueDigits? base value digits =
      some (digits.foldl (fun n c => n * base + digitOf c) value) := by
  induction digits generalizing value with
  | nil => rfl
  | cons c cs ih =>
    obtain ⟨⟨hUnderscore, hDigit⟩, hOthers⟩ := List.forall_mem_cons.mp h
    rw [Number.continueDigits?, hDigit]
    · exact ih hOthers _
    · exact fun _ _ hc => absurd hc hUnderscore

/-- Digits are read as the number they spell. -/
theorem digits?_eq {base : Nat} {digits : Text} (h : ∀ c ∈ digits, IsDigitIn base c)
    (hSome : digits ≠ []) : Number.digits? base digits = some (spelled base digits) := by
  cases digits with
  | nil => exact absurd rfl hSome
  | cons c cs =>
    obtain ⟨hFirst, hOthers⟩ := List.forall_mem_cons.mp h
    rw [Number.digits?, hFirst.2, Option.bind_some, continueDigits?_eq hOthers, spelled,
      List.foldl_cons, Nat.zero_mul, Nat.zero_add]

/-- Some digits spell less than one more digit would. -/
theorem spelled_lt {base : Nat} {digits : Text} (h : ∀ c ∈ digits, digitOf c < base) :
    spelled base digits < base ^ digits.length := by
  have hFrom : ∀ value, digits.foldl (fun n c => n * base + digitOf c) value <
      (value + 1) * base ^ digits.length := by
    induction digits with
    | nil => intro value; simp
    | cons c cs ih =>
      intro value
      obtain ⟨hFirst, hOthers⟩ := List.forall_mem_cons.mp h
      calc (c :: cs).foldl (fun n c => n * base + digitOf c) value
          < (value * base + digitOf c + 1) * base ^ cs.length := ih hOthers _
        _ ≤ ((value + 1) * base) * base ^ cs.length := by
          refine Nat.mul_le_mul_right _ ?_
          rw [Nat.succ_mul]
          omega
        _ = (value + 1) * base ^ (c :: cs).length := by
          rw [List.length_cons, Nat.pow_succ]
          ring
  simpa [spelled] using hFrom 0

-- ---------------------------------------------------------------------------
-- Escape sequences
-- ---------------------------------------------------------------------------

/-- Hexadecimal digits have neither signs nor underscores among them. -/
theorem plain_hex {digits : Text} (h : ∀ c ∈ digits, isHexDigit c = true) :
    Number.plain digits = digits := by
  have hChar : ∀ c ∈ digits, Number.plainChar c = c ∧ Number.isPadding c = false := by
    intro c hc
    have hCode := isHexDigit_iff.mp (h c hc)
    refine ⟨if_pos (by omega), ?_⟩
    have hBounds : Number.isPadding c =
        (c == ' ' || (decide (9 ≤ c.toNat) && decide (c.toNat ≤ 13))) :=
      rfl
    have hSpace : c ≠ ' ' := by
      rintro rfl
      simp at hCode
    simp only [hBounds, Bool.or_eq_false_iff, beq_eq_false_iff_ne, Bool.and_eq_false_iff,
      decide_eq_false_iff_not]
    exact ⟨hSpace, by omega⟩
  have hMap : digits.map Number.plainChar = digits :=
    (List.map_congr_left fun c hc => (hChar c hc).1).trans (List.map_id digits)
  have hDrop : ∀ {t : Text}, (∀ c ∈ t, Number.isPadding c = false) →
      t.dropWhile Number.isPadding = t := fun {t} ht =>
    List.dropWhile_eq_self_iff.mpr fun hLength => by simp [ht]
  unfold Number.plain
  rw [hMap, hDrop fun c hc => (hChar c hc).2,
    hDrop fun c hc => (hChar c (List.mem_reverse.mp hc)).2, List.reverse_reverse]

/-- Hexadecimal digits are read as the number they spell. -/
theorem hexInteger?_eq {digits : Text} (h : ∀ c ∈ digits, isHexDigit c = true)
    (hSome : digits ≠ []) : Number.hexInteger? digits = some (spelled 16 digits : Int) := by
  have hRead : Number.digits? 16 digits = some (spelled 16 digits) :=
    digits?_eq (fun c hc => isDigitIn (h c hc) (digitOf_lt (h c hc))) hSome
  have hNatural : Number.hexNatural? digits = some (spelled 16 digits) := by
    unfold Number.hexNatural?
    split
    · exact absurd (h 'x' (by simp)) (by decide)
    · exact absurd (h 'X' (by simp)) (by decide)
    · exact hRead
  unfold Number.hexInteger? Number.signed?
  rw [plain_hex h]
  split
  · exact absurd (h '-' (by simp)) (by decide)
  · exact absurd (h '+' (by simp)) (by decide)
  · rw [hNatural]
    rfl

/-- The value of an escape by its digits. -/
theorem hexCodePoint_eq {digits : Text} (h : ∀ c ∈ digits, isHexDigit c = true)
    (hSome : digits ≠ []) :
    hexCodePoint digits =
      if 0x7FFFFFFF < spelled 16 digits then .error .beyondWord
      else if 0x10FFFF < spelled 16 digits then .error .beyondUnicode
      else .ok [spelled 16 digits] := by
  unfold hexCodePoint
  rw [hexInteger?_eq h hSome]
  generalize spelled 16 digits = n
  dsimp only
  by_cases hWord : 0x7FFFFFFF < n
  · rw [if_pos (by omega), if_pos hWord]
  · rw [if_neg (by omega), if_neg hWord]
    by_cases hBeyond : 0x10FFFF < n
    · rw [if_pos (by omega), if_pos hBeyond]
    · rw [if_neg (by omega), if_neg hBeyond]
      rfl

/-- Why an escape sequence has no value: the number in its braces is no code point. -/
inductive EscapeFails (sequence : Text) : Failure → Prop
  | beyondUnicode (digits : Text) (hForm : sequence = '\\' :: 'u' :: '{' :: digits ++ ['}'])
      (hDigits : ∀ c ∈ digits, isHexDigit c = true) (hBeyond : 0x10FFFF < spelled 16 digits)
      (hWord : spelled 16 digits ≤ 0x7FFFFFFF) : EscapeFails sequence .beyondUnicode
  | beyondWord (digits : Text) (hForm : sequence = '\\' :: 'u' :: '{' :: digits ++ ['}'])
      (hDigits : ∀ c ∈ digits, isHexDigit c = true) (hBeyond : 0x7FFFFFFF < spelled 16 digits) :
    EscapeFails sequence .beyondWord

/-- Only escapes in braces fail. -/
theorem EscapeFails.exists_digits {sequence : Text} {e : Failure} (h : EscapeFails sequence e) :
    ∃ digits, sequence = '\\' :: 'u' :: '{' :: digits ++ ['}'] := by
  cases h with
  | beyondUnicode digits hForm => exact ⟨digits, hForm⟩
  | beyondWord digits hForm => exact ⟨digits, hForm⟩

/-- At most four digits spell a code point. -/
theorem exists_hexCodePoint {digits : Text} (h : ∀ c ∈ digits, isHexDigit c = true)
    (hSome : digits ≠ []) (hFew : digits.length ≤ 4) : ∃ codes, hexCodePoint digits = .ok codes := by
  have hLt : spelled 16 digits < 65536 :=
    calc spelled 16 digits
        < 16 ^ digits.length := spelled_lt fun c hc => digitOf_lt (h c hc)
      _ ≤ 16 ^ 4 := Nat.pow_le_pow_right (by decide) hFew
  rw [hexCodePoint_eq h hSome, if_neg (by omega), if_neg (by omega)]
  exact ⟨_, rfl⟩

/-- An escape by other letters always has a value. -/
theorem exists_escapeBody {c : Char} {rest : Text} (hUnicode : c ≠ 'u') (hByte : c ≠ 'x') :
    ∃ codes, escapeBody (c :: rest) = .ok codes := by
  unfold escapeBody
  split
  case h_1 heq => exact absurd (List.cons.inj heq).1 hUnicode
  case h_2 heq => exact absurd (List.cons.inj heq).1 hUnicode
  case h_3 heq => exact absurd (List.cons.inj heq).1 hByte
  case h_4 => exact ⟨_, rfl⟩
  case h_5 => exact ⟨_, rfl⟩
  case h_6 =>
    split
    · exact ⟨_, rfl⟩
    · split
      · exact ⟨_, rfl⟩
      · exact ⟨_, rfl⟩

/-- An escape with braces is worth the number between them. -/
theorem escapeValue_braced (digits : Text) :
    escapeValue ('\\' :: 'u' :: '{' :: digits ++ ['}']) = hexCodePoint digits := by
  show escapeBody ('u' :: '{' :: (digits ++ ['}'])) = _
  rw [escapeBody, if_pos List.getLast?_concat, List.dropLast_concat]

/-- An escape without braces is worth the number behind its letter. -/
theorem escapeValue_short {c : Char} {cs : Text} (hBrace : c ≠ '{') :
    escapeValue ('\\' :: 'u' :: c :: cs) = hexCodePoint (c :: cs) := by
  show escapeBody ('u' :: c :: cs) = _
  rw [escapeBody]
  exact hBrace

/-- An escape with braces fails if its number is greater than any code point, or any machine
word. -/
theorem escapeFails_braced_iff {digits : Text} {e : Failure}
    (hDigits : ∀ c ∈ digits, isHexDigit c = true) (hSome : digits ≠ []) :
    hexCodePoint digits = .error e ↔ EscapeFails ('\\' :: 'u' :: '{' :: digits ++ ['}']) e := by
  rw [hexCodePoint_eq hDigits hSome]
  constructor
  · intro hError
    split_ifs at hError with hWord hBeyond
    · obtain rfl := Except.error.inj hError
      exact .beyondWord digits rfl hDigits hWord
    · obtain rfl := Except.error.inj hError
      exact .beyondUnicode digits rfl hDigits hBeyond (by omega)
  · intro hFails
    cases hFails with
    | beyondUnicode digits' hForm _ hBeyond hWord =>
      obtain rfl : digits = digits' := by simpa using hForm
      rw [if_neg (by omega), if_pos hBeyond]
    | beyondWord digits' hForm _ hBeyond =>
      obtain rfl : digits = digits' := by simpa using hForm
      rw [if_pos hBeyond]

/-- **When an escape sequence has no value.** -/
theorem escapeValue_eq_error_iff {sequence : Text} {e : Failure} (h : IsLexeme escape? sequence) :
    escapeValue sequence = .error e ↔ EscapeFails sequence e := by
  -- an escape with a value is none of those in braces
  have hOk : ∀ {t : Text}, (∃ codes, escapeValue t = .ok codes) →
      (∀ rest, t ≠ '\\' :: 'u' :: '{' :: rest) →
      (escapeValue t = .error e ↔ EscapeFails t e) := by
    rintro t ⟨codes, hCodes⟩ hForm
    refine iff_of_false (by rw [hCodes]; exact nofun) fun hFails => ?_
    obtain ⟨digits, hDigits⟩ := hFails.exists_digits
    exact hForm _ hDigits
  cases escapeSequence_of_isLexeme h with
  | byte digits hDigits hTwo =>
    cases digits with
    | nil => exact nomatch hTwo
    | cons c cs =>
      refine hOk ?_ fun rest heq => by simp at heq
      exact exists_hexCodePoint hDigits (List.cons_ne_nil c cs) (by omega)
  | other c rest hUnicode hByte =>
    refine hOk (exists_escapeBody hUnicode hByte) fun _ heq => ?_
    exact hUnicode (List.cons.inj (List.cons.inj heq).2).1
  | unicode hEscape =>
    cases hEscape with
    | short digits hDigits hFour =>
      cases digits with
      | nil => exact nomatch hFour
      | cons c cs =>
        have hBrace : c ≠ '{' := by
          rintro rfl
          exact absurd (hDigits '{' List.mem_cons_self) (by decide)
        refine hOk ?_ fun rest heq => hBrace ?_
        · rw [escapeValue_short hBrace]
          exact exists_hexCodePoint hDigits (List.cons_ne_nil c cs) (by omega)
        · exact (List.cons.inj (List.cons.inj (List.cons.inj heq).2).2).1
    | braced digits hDigits hSome =>
      rw [← List.cons_append, escapeValue_braced]
      exact escapeFails_braced_iff hDigits hSome

-- ---------------------------------------------------------------------------
-- Numerals
-- ---------------------------------------------------------------------------

/-- Why a numeral has no value: it is a zero with octal digits behind it, and its value has more
decimal digits than are written. -/
inductive NumeralFails (numeral : Text) : Failure → Prop
  | tooManyDigits (hOctal : isLegacyOctal (numeral.filter (· != '_')) = true)
      (hLong : Number.digitLimit <
        (Text.decimal (spelled 8 (numeral.filter (· != '_')))).length) :
    NumeralFails numeral .tooManyDigits

/-- A legacy octal numeral is read to the base eight. -/
theorem digits?_of_isLegacyOctal {digits : Text} (h : isLegacyOctal digits = true) :
    Number.digits? 8 digits = some (spelled 8 digits) := by
  unfold isLegacyOctal at h
  split at h
  case h_1 c cs =>
    refine digits?_eq (fun d hd => ?_) (List.cons_ne_nil _ _)
    have hOctal : isOctalDigit d = true := by
      rcases List.mem_cons.mp hd with rfl | hd
      · rfl
      · exact List.all_eq_true.mp h d hd
    obtain ⟨hHex, hLt⟩ := isHexDigit_of_isOctalDigit hOctal
    exact isDigitIn hHex hLt
  case h_2 => exact nomatch h

/-- **When a number literal has no value.** -/
theorem numberValue_eq_error_iff {numeral : Text} {e : Failure} :
    numberValue numeral = .error e ↔ NumeralFails numeral e := by
  unfold numberValue
  dsimp only
  by_cases hOctal : isLegacyOctal (numeral.filter (· != '_')) = true
  · rw [if_pos hOctal, digits?_of_isLegacyOctal hOctal, Option.bind_some, Number.limitedText?,
      Int.natAbs_natCast]
    split_ifs with hShort
    · refine iff_of_false nofun fun hFails => ?_
      cases hFails with
      | tooManyDigits _ hLong => omega
    · constructor
      · intro hError
        obtain rfl := Except.error.inj hError
        exact .tooManyDigits hOctal (by omega)
      · intro hFails
        cases hFails with
        | tooManyDigits => rfl
  · rw [if_neg hOctal]
    refine iff_of_false ?_ fun hFails => ?_
    · split
      · exact nofun
      · split
        · exact nofun
        · exact nofun
    · cases hFails with
      | tooManyDigits hLegacy => exact hOctal hLegacy

end ClassTags.Literal

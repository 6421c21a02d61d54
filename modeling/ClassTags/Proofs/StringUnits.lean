import ClassTags.Node.Reading
import ClassTags.Proofs.LiteralFailure
import Mathlib.Data.List.Forall2

/-!
# Strings as code units

The pieces of a string literal give code points, halves of surrogate pairs among them, and a half
may find its other half in the next piece. So the value of a literal is said of its **code units**
as a whole: they are those of the pieces, except that each half without its other half is U+FFFD.
Since no two texts have the same code units, this says what the value is, and how a character is
spelled makes no difference.

Main definitions:

* `Text.codeUnits` — a text as 16-bit units;
* `Text.mended` — units in which every half that is not joined to another one is replaced;
* `Literal.Spelling` — the escape sequences that spell a character;
* `SyntaxTree.Spells` — the pieces of a string literal spell a text.

Main results:

* `Text.codeUnits_ofUnits` — the text of given units;
* `Text.ofUnits_codeUnits` — a text is read back from its units;
* `SyntaxTree.stringValue_units` — the value of a string literal.
-/

namespace ClassTags

-- ---------------------------------------------------------------------------
-- Units of a text
-- ---------------------------------------------------------------------------

namespace Text

/-- A text as 16-bit units. -/
def codeUnits (t : Text) : List Nat := t.flatMap fun c => units c.toNat

/-- Whether a unit is one of the two halves of a pair. -/
def isHalf (u : Nat) : Bool := isHighHalf u || isLowHalf u

/-- Whether a unit that stands between two others makes a pair with one of them. -/
def isJoined (before? : Option Nat) (u : Nat) (after? : Option Nat) : Bool :=
  isHighHalf u && after?.any isLowHalf || isLowHalf u && before?.any isHighHalf

/-- `mended` for the units behind `before?`. -/
def mendedAfter (before? : Option Nat) : List Nat → List Nat
  | [] => []
  | u :: us =>
    (if isHalf u && !isJoined before? u us.head? then replacement.toNat else u) ::
      mendedAfter (some u) us

/-- The units, with U+FFFD for each half that stands alone. -/
def mended (us : List Nat) : List Nat := mendedAfter none us

theorem isHighHalf_iff {u : Nat} : isHighHalf u = true ↔ 0xD800 ≤ u ∧ u ≤ 0xDBFF := by
  simp [isHighHalf]

theorem isLowHalf_iff {u : Nat} : isLowHalf u = true ↔ 0xDC00 ≤ u ∧ u ≤ 0xDFFF := by
  simp [isLowHalf]

theorem isHalf_iff {u : Nat} : isHalf u = true ↔ 0xD800 ≤ u ∧ u ≤ 0xDFFF := by
  rw [isHalf, Bool.or_eq_true, isHighHalf_iff, isLowHalf_iff]
  omega

/-- A character is no half of a pair. -/
theorem not_isHalf_toNat (c : Char) : isHalf c.toNat = false := by
  rw [Bool.eq_false_iff, ne_eq, isHalf_iff]
  rcases c.valid with hLow | ⟨hHigh, -⟩
  · have : c.toNat < 0xD800 := hLow
    omega
  · have : 0xDFFF < c.toNat := hHigh
    omega

theorem toNat_lt (c : Char) : c.toNat < 0x110000 := by
  rcases c.valid with hLow | ⟨-, hHigh⟩
  · have : c.toNat < 0xD800 := hLow
    omega
  · exact hHigh

/-- A number that is no half of a pair is the code point of its character. -/
theorem toNat_ofNat_of_not_isHalf {n : Nat} (hHalf : isHalf n = false) (hBound : n < 0x110000) :
    (Char.ofNat n).toNat = n := by
  rw [Bool.eq_false_iff, ne_eq, isHalf_iff] at hHalf
  have hValid : n.isValidChar := by
    unfold Nat.isValidChar
    omega
  unfold Char.ofNat
  rw [dif_pos hValid]
  rfl

theorem units_of_lt {n : Nat} (h : n < 0x10000) : units n = [n] := if_pos h

/-- The units of code points fit into 16 bits. -/
theorem units_lt {n : Nat} (h : n < 0x110000) : ∀ u ∈ units n, u < 0x10000 := by
  unfold units
  split
  case isTrue hSmall => exact List.forall_mem_singleton.mpr hSmall
  case isFalse =>
    refine List.forall_mem_cons.mpr ⟨?_, List.forall_mem_singleton.mpr ?_⟩
    · omega
    · omega

-- ---------------------------------------------------------------------------
-- From units to text and back
-- ---------------------------------------------------------------------------

/-- A unit that begins no pair is a character of its own. -/
theorem ofUnits_cons {u : Nat} {us : List Nat}
    (h : (isHighHalf u && us.head?.any isLowHalf) = false) :
    ofUnits (u :: us) = ofUnit u :: ofUnits us := by
  cases us with
  | nil => rfl
  | cons v us =>
    rw [ofUnits, if_neg]
    exact ne_true_of_eq_false h

/-- A pair of halves is one character. -/
theorem ofUnits_pair {u v : Nat} {us : List Nat} (hHigh : isHighHalf u = true)
    (hLow : isLowHalf v = true) :
    ofUnits (u :: v :: us) =
      Char.ofNat (0x10000 + (u - 0xD800) * 0x400 + (v - 0xDC00)) :: ofUnits us := by
  rw [ofUnits, if_pos (by rw [hHigh, hLow]; rfl)]

/-- A unit comes back from its character, a half as the replacement character. -/
theorem units_ofUnit {u : Nat} (h : u < 0x10000) :
    units (ofUnit u).toNat = [if isHalf u then replacement.toNat else u] := by
  unfold ofUnit
  split
  case isTrue hHalf =>
    have hHalf : isHalf u = true := hHalf
    rw [if_pos hHalf]
    rfl
  case isFalse hHalf =>
    have hHalf : isHalf u = false := Bool.eq_false_iff.mpr hHalf
    rw [toNat_ofNat_of_not_isHalf hHalf (by omega), units_of_lt h, if_neg (by simp [hHalf])]

/-- A pair comes back from its character. -/
theorem units_pair {u v : Nat} (hHigh : isHighHalf u = true) (hLow : isLowHalf v = true) :
    units (Char.ofNat (0x10000 + (u - 0xD800) * 0x400 + (v - 0xDC00))).toNat = [u, v] := by
  rw [isHighHalf_iff] at hHigh
  rw [isLowHalf_iff] at hLow
  have hHalf : isHalf (0x10000 + (u - 0xD800) * 0x400 + (v - 0xDC00)) = false := by
    rw [Bool.eq_false_iff, ne_eq, isHalf_iff]
    omega
  rw [toNat_ofNat_of_not_isHalf hHalf (by omega), units, if_neg (by omega), List.cons.injEq,
    List.cons.injEq]
  exact ⟨by omega, by omega, rfl⟩

/-- The text of given units, where what stands before them does not belong to the first one. -/
theorem codeUnits_ofUnits_after {us : List Nat} (hUnits : ∀ u ∈ us, u < 0x10000)
    {before? : Option Nat} (h : (before?.any isHighHalf && us.head?.any isLowHalf) = false) :
    codeUnits (ofUnits us) = mendedAfter before? us := by
  -- the induction follows the decoder, which takes one unit or a pair
  induction us using ofUnits.induct generalizing before? with
  | case1 => rfl
  | case2 u =>
    have hAlone : isJoined before? u none = false := by
      rw [isJoined, Bool.and_comm (isLowHalf u)]
      simpa using h
    have hBound := hUnits u (List.mem_singleton_self u)
    simp [ofUnits, codeUnits, mendedAfter, units_ofUnit hBound, hAlone]
  | case3 u v us hPair ih =>
    obtain ⟨hHigh, hLow⟩ := Bool.and_eq_true_iff.mp hPair
    have hRest : ∀ w ∈ us, w < 0x10000 := fun w hw =>
      hUnits w (List.mem_cons_of_mem u (List.mem_cons_of_mem v hw))
    -- the second half of a pair cannot begin another one
    have hAfter : ((some v).any isHighHalf && us.head?.any isLowHalf) = false := by
      rw [isLowHalf_iff] at hLow
      have hNot : isHighHalf v = false := by
        rw [Bool.eq_false_iff, ne_eq, isHighHalf_iff]
        omega
      simp [hNot]
    have hPieces : codeUnits (ofUnits (u :: v :: us)) = u :: v :: codeUnits (ofUnits us) := by
      rw [ofUnits_pair hHigh hLow, codeUnits, List.flatMap_cons, units_pair hHigh hLow]
      rfl
    rw [hPieces, ih hRest hAfter]
    simp [mendedAfter, isJoined, hHigh, hLow]
  | case4 u v us hPair ih =>
    have hPair : (isHighHalf u && isLowHalf v) = false := Bool.eq_false_iff.mpr hPair
    obtain ⟨hBound, hRest⟩ := List.forall_mem_cons.mp hUnits
    have hAlone : isJoined before? u (some v) = false := by
      rw [isJoined, Bool.and_comm (isLowHalf u), Option.any_some, hPair]
      exact h
    have hAfter : ((some u).any isHighHalf && (v :: us).head?.any isLowHalf) = false := hPair
    have hHead : codeUnits (ofUnits (u :: v :: us)) =
        (if isHalf u then replacement.toNat else u) :: codeUnits (ofUnits (v :: us)) := by
      rw [ofUnits_cons hAfter, codeUnits, List.flatMap_cons, units_ofUnit hBound]
      rfl
    rw [hHead, ih hRest hAfter, mendedAfter.eq_2 before? u, List.head?_cons, hAlone, Bool.not_false,
      Bool.and_true]

/-- **The text of given units** has them as its own, but for the halves that stand alone. -/
theorem codeUnits_ofUnits {us : List Nat} (h : ∀ u ∈ us, u < 0x10000) :
    codeUnits (ofUnits us) = mended us :=
  codeUnits_ofUnits_after h rfl

/-- **A text is read back from its units.** -/
theorem ofUnits_codeUnits (t : Text) : ofUnits (codeUnits t) = t := by
  induction t with
  | nil => rfl
  | cons c t ih =>
    have hHalf := not_isHalf_toNat c
    have hBound := toNat_lt c
    rw [codeUnits, List.flatMap_cons]
    change ofUnits (units c.toNat ++ codeUnits t) = c :: t
    by_cases hSmall : c.toNat < 0x10000
    · have hHigh : isHighHalf c.toNat = false := (Bool.or_eq_false_iff.mp hHalf).1
      rw [units_of_lt hSmall, List.singleton_append, ofUnits_cons (by simp [hHigh]), ih, ofUnit,
        if_neg (by simpa [isHalf] using hHalf), Char.ofNat_toNat]
    · have hHigh : isHighHalf (0xD800 + (c.toNat - 0x10000) / 0x400) = true := by
        rw [isHighHalf_iff]
        omega
      have hLow : isLowHalf (0xDC00 + (c.toNat - 0x10000) % 0x400) = true := by
        rw [isLowHalf_iff]
        omega
      have hCode : 0x10000 + (0xD800 + (c.toNat - 0x10000) / 0x400 - 0xD800) * 0x400 +
          (0xDC00 + (c.toNat - 0x10000) % 0x400 - 0xDC00) = c.toNat := by
        omega
      rw [units, if_neg hSmall, List.cons_append, List.singleton_append, ofUnits_pair hHigh hLow, ih,
        hCode, Char.ofNat_toNat]

end Text

-- ---------------------------------------------------------------------------
-- Escape sequences
-- ---------------------------------------------------------------------------

namespace Literal

open Grammar

theorem codePoints_lt (t : Text) : ∀ n ∈ codePoints t, n < 0x110000 := by
  intro n hn
  obtain ⟨c, -, rfl⟩ := List.mem_map.mp hn
  exact Text.toNat_lt c

/-- An escape by code point stays in range. -/
theorem hexCodePoint_lt {digits : Text} {codes : List Nat} (h : hexCodePoint digits = .ok codes) :
    ∀ n ∈ codes, n < 0x110000 := by
  unfold hexCodePoint at h
  split at h
  case h_1 => cases h
  case h_2 i _ =>
    split_ifs at h
    obtain rfl := Except.ok.inj h
    exact List.forall_mem_singleton.mpr (by omega)

/-- One to three octal digits spell a number of at most nine bits. -/
theorem octal_lt {digits : Text} (h : isOctalEscape digits = true) :
    (Number.digits? 8 digits).getD 0 = spelled 8 digits ∧ spelled 8 digits < 512 := by
  simp only [isOctalEscape, Bool.and_eq_true, decide_eq_true_eq, List.all_eq_true] at h
  obtain ⟨⟨hSome, hFew⟩, hDigits⟩ := h
  have hOctal : ∀ c ∈ digits, isHexDigit c = true ∧ digitOf c < 8 := fun c hc =>
    isHexDigit_of_isOctalDigit (by simpa [isOctalDigit] using hDigits c hc)
  have hDigitIn : ∀ c ∈ digits, IsDigitIn 8 c := fun c hc =>
    isDigitIn (hOctal c hc).1 (hOctal c hc).2
  rw [digits?_eq hDigitIn (List.ne_nil_of_length_pos hSome)]
  refine ⟨rfl, ?_⟩
  calc spelled 8 digits
      < 8 ^ digits.length := spelled_lt fun c hc => (hOctal c hc).2
    _ ≤ 8 ^ 3 := Nat.pow_le_pow_right (by decide) hFew

theorem letterEscape?_lt {c : Char} : (letterEscape? c).getD c.toNat < 0x110000 := by
  have hChar := Text.toNat_lt c
  unfold letterEscape?
  split <;> simp [hChar]

/-- The value of an escape sequence is made of code points. -/
theorem escapeValue_lt {sequence : Text} {codes : List Nat} (h : escapeValue sequence = .ok codes) :
    ∀ n ∈ codes, n < 0x110000 := by
  unfold escapeValue escapeBody at h
  split at h
  case h_1 =>
    split at h
    · exact hexCodePoint_lt h
    · exact hexCodePoint_lt h
  case h_2 | h_3 => exact hexCodePoint_lt h
  case h_4 | h_5 =>
    obtain rfl := Except.ok.inj h
    exact List.forall_mem_nil _
  case h_6 =>
    split at h
    case isTrue hOctal =>
      obtain rfl := Except.ok.inj h
      obtain ⟨hValue, hBound⟩ := octal_lt hOctal
      exact List.forall_mem_singleton.mpr (by omega)
    case isFalse =>
      split at h
      · obtain rfl := Except.ok.inj h
        exact List.forall_mem_singleton.mpr letterEscape?_lt
      · obtain rfl := Except.ok.inj h
        exact codePoints_lt _

/-- The hexadecimal digits of a number, with letters of either case and leading zeros. -/
structure HexNumeral (n : Nat) (digits : Text) : Prop where
  isHex : ∀ c ∈ digits, isHexDigit c = true
  value : spelled 16 digits = n

/-- The escape sequences that spell a character: one by its byte, by four digits or by digits in
braces, or two for the halves of its pair. -/
inductive Spelling (c : Char) : List Text → Prop
  | byte (digits : Text) (hDigits : HexNumeral c.toNat digits) (hTwo : digits.length = 2) :
    Spelling c ['\\' :: 'x' :: digits]
  | short (digits : Text) (hDigits : HexNumeral c.toNat digits) (hFour : digits.length = 4) :
    Spelling c ['\\' :: 'u' :: digits]
  | pair {high low : Nat} (digits digits' : Text) (hUnits : Text.units c.toNat = [high, low])
      (hHigh : HexNumeral high digits) (hLow : HexNumeral low digits') (hFour : digits.length = 4)
      (hFour' : digits'.length = 4) : Spelling c ['\\' :: 'u' :: digits, '\\' :: 'u' :: digits']
  | braced (digits : Text) (hDigits : HexNumeral c.toNat digits) (hSome : digits ≠ []) :
    Spelling c ['\\' :: 'u' :: '{' :: digits ++ ['}']]

variable {n : Nat} {digits : Text}

/-- A hexadecimal numeral in range is the code point it spells. -/
theorem HexNumeral.hexCodePoint (h : HexNumeral n digits) (hSome : digits ≠ []) (hBound : n < 0x110000) :
    hexCodePoint digits = .ok [n] := by
  rw [hexCodePoint_eq h.isHex hSome, h.value, if_neg (by omega), if_neg (by omega)]

/-- An escape by a byte is worth the numeral it spells. -/
theorem HexNumeral.escapeValue_byte (h : HexNumeral n digits) (hTwo : digits.length = 2)
    (hBound : n < 0x110000) : escapeValue ('\\' :: 'x' :: digits) = .ok [n] := by
  cases digits with
  | nil => cases hTwo
  | cons d ds => exact h.hexCodePoint (List.cons_ne_nil d ds) hBound

/-- An escape without braces is worth the numeral it spells. -/
theorem HexNumeral.escapeValue_short (h : HexNumeral n digits) (hFour : digits.length = 4)
    (hBound : n < 0x110000) : escapeValue ('\\' :: 'u' :: digits) = .ok [n] := by
  cases digits with
  | nil => cases hFour
  | cons d ds =>
    have hBrace : d ≠ '{' := by
      rintro rfl
      exact absurd (h.isHex '{' List.mem_cons_self) (by decide)
    rw [Literal.escapeValue_short hBrace]
    exact h.hexCodePoint (List.cons_ne_nil d ds) hBound

/-- However a character is spelled, the escape sequences have its units. -/
theorem Spelling.exists_codes {c : Char} {sequences : List Text} (h : Spelling c sequences) :
    ∃ codes, List.Forall₂ (fun sequence ns => escapeValue sequence = .ok ns) sequences codes ∧
      codes.flatten.flatMap Text.units = Text.units c.toNat := by
  have hBound := Text.toNat_lt c
  cases h with
  | byte _ hDigits hTwo =>
    exact ⟨[[c.toNat]], .cons (hDigits.escapeValue_byte hTwo hBound) .nil, by simp⟩
  | short _ hDigits hFour =>
    exact ⟨[[c.toNat]], .cons (hDigits.escapeValue_short hFour hBound) .nil, by simp⟩
  | pair _ _ hUnits hHigh hLow hFour hFour' =>
    have hSmall := Text.units_lt hBound
    rw [hUnits, List.forall_mem_cons, List.forall_mem_singleton] at hSmall
    refine ⟨[[_], [_]], .cons (hHigh.escapeValue_short hFour (by omega))
      (.cons (hLow.escapeValue_short hFour' (by omega)) .nil), ?_⟩
    simp [hUnits, Text.units_of_lt hSmall.1, Text.units_of_lt hSmall.2]
  | braced _ hDigits hSome =>
    refine ⟨[[c.toNat]], .cons ?_ .nil, by simp⟩
    rw [escapeValue_braced]
    exact hDigits.hexCodePoint hSome hBound

end Literal

-- ---------------------------------------------------------------------------
-- String literals
-- ---------------------------------------------------------------------------

namespace SyntaxTree

variable {source : Text} {t : SyntaxTree} {cs ts : List SyntaxTree} {values : List (List Nat)}

/-- The pieces of a string literal, given its children: its quotes are not named. -/
def literalPieces (cs : List SyntaxTree) : List SyntaxTree := cs.filter fun t => t.label.named

/-- The pieces have the given values. -/
abbrev PieceValues (source : Text) : List SyntaxTree → List (List Nat) → Prop :=
  List.Forall₂ fun t codes => pieceValue source t = .ok codes

/-- The pieces of a string literal spell a text: each character is written as it is or by escape
sequences. -/
inductive Spells (source : Text) : List SyntaxTree → Text → Prop
  | nil : Spells source [] []
  | raw (t : SyntaxTree) {ts : List SyntaxTree} {s : Text} (hKind : t.kind ≠ .escapeSequence)
      (h : Spells source ts s) : Spells source (t :: ts) (t.rawText source ++ s)
  | escaped {c : Char} (sequences : List SyntaxTree) {ts : List SyntaxTree} {s : Text}
      (hKind : ∀ t ∈ sequences, t.kind = .escapeSequence)
      (hSpelling : Literal.Spelling c (sequences.map (rawText source))) (h : Spells source ts s) :
    Spells source (sequences ++ ts) (c :: s)

/-- A piece of a string has code points in range. -/
theorem pieceValue_lt {codes : List Nat} (h : pieceValue source t = .ok codes) :
    ∀ n ∈ codes, n < 0x110000 := by
  unfold pieceValue at h
  split at h
  · exact Literal.escapeValue_lt h
  · obtain rfl := Except.ok.inj h
    exact Literal.codePoints_lt _

/-- All pieces of a string have code points in range. -/
theorem pieceValues_lt (h : PieceValues source ts values) : ∀ n ∈ values.flatten, n < 0x110000 := by
  induction h with
  | nil => exact List.forall_mem_nil _
  | cons hFirst _ ih =>
    rw [List.flatten_cons, List.forall_mem_append]
    exact ⟨pieceValue_lt hFirst, ih⟩

/-- The value of a string literal before its units are joined. -/
theorem piecesValue_eq (h : PieceValues source (literalPieces cs) values) :
    piecesValue source cs = .ok values.flatten := by
  induction cs generalizing values with
  | nil =>
    cases h
    rfl
  | cons t ts ih =>
    rw [literalPieces, List.filter_cons] at h
    rw [piecesValue]
    split at h
    case isTrue hNamed =>
      rw [if_pos hNamed]
      cases h with
      | cons hFirst hOthers =>
        rw [hFirst, ih hOthers]
        rfl
    case isFalse hNamed =>
      rw [if_neg hNamed]
      exact ih h

/-- Pieces that are all escape sequences have the values of these. -/
theorem pieceValues_escaped (hKind : ∀ t ∈ ts, t.kind = .escapeSequence)
    (h : List.Forall₂ (fun sequence ns => Literal.escapeValue sequence = .ok ns)
      (ts.map (rawText source)) values) : PieceValues source ts values := by
  rw [List.forall₂_map_left_iff] at h
  induction h with
  | nil => exact .nil
  | cons hValue _ ih =>
    obtain ⟨hFirst, hOthers⟩ := List.forall_mem_cons.mp hKind
    exact .cons ((if_pos hFirst).trans hValue) (ih hOthers)

/-- Pieces that spell a text have its units. -/
theorem Spells.exists_values {s : Text} (h : Spells source ts s) :
    ∃ values, PieceValues source ts values ∧ values.flatten.flatMap Text.units = s.codeUnits := by
  induction h with
  | nil => exact ⟨[], .nil, rfl⟩
  | @raw t ts s hKind _ ih =>
    obtain ⟨values, hValues, hUnits⟩ := ih
    refine ⟨Literal.codePoints (t.rawText source) :: values, .cons (if_neg hKind) hValues, ?_⟩
    rw [List.flatten_cons, List.flatMap_append, hUnits, Text.codeUnits, Text.codeUnits,
      List.flatMap_append, Literal.codePoints, List.flatMap_map]
  | @escaped c sequences ts s hKind hSpelling _ ih =>
    obtain ⟨values, hValues, hUnits⟩ := ih
    obtain ⟨codes, hCodes, hOwn⟩ := hSpelling.exists_codes
    refine ⟨codes ++ values, List.rel_append (pieceValues_escaped hKind hCodes) hValues, ?_⟩
    rw [List.flatten_append, List.flatMap_append, hOwn, hUnits, Text.codeUnits, Text.codeUnits,
      List.flatMap_cons]

/-- **The value of a string** is made of the units of its pieces, with halves joined across
pieces. -/
theorem stringValue_eq (h : PieceValues source (literalPieces cs) values) :
    stringValue source cs = .ok (Text.ofUnits (values.flatten.flatMap Text.units)) := by
  rw [stringValue, piecesValue_eq h]
  rfl

/-- A string literal has a value if its pieces have, and its units are theirs but for the halves
that stand alone. -/
theorem exists_stringValue (h : PieceValues source (literalPieces cs) values) :
    ∃ value, stringValue source cs = .ok value ∧
      value.codeUnits = Text.mended (values.flatten.flatMap Text.units) := by
  refine ⟨_, stringValue_eq h, Text.codeUnits_ofUnits ?_⟩
  intro u hu
  obtain ⟨n, hn, hu⟩ := List.mem_flatMap.mp hu
  exact Text.units_lt (pieceValues_lt h n hn) u hu

/-- **The value of a string literal.** Its units are those of the pieces, with U+FFFD for each half
of a pair that stands alone; so it has no such halves. And pieces that spell a text have it as their
value, whatever the spelling. -/
theorem stringValue_units (source : Text) (cs : List SyntaxTree) :
    (∀ values, PieceValues source (literalPieces cs) values →
      ∃ value, stringValue source cs = .ok value ∧
        value.codeUnits = Text.mended (values.flatten.flatMap Text.units) ∧
        ∀ c ∈ value, Text.isHalf c.toNat = false) ∧
    ∀ s, Spells source (literalPieces cs) s → stringValue source cs = .ok s := by
  constructor
  · intro values hValues
    obtain ⟨value, hValue, hUnits⟩ := exists_stringValue hValues
    exact ⟨value, hValue, hUnits, fun c _ => Text.not_isHalf_toNat c⟩
  · intro s hSpells
    obtain ⟨values, hValues, hUnits⟩ := hSpells.exists_values
    rw [stringValue_eq hValues, hUnits, Text.ofUnits_codeUnits]

/-- Two literals: in the first one a low half and a high half stand alone before a pair, and the
second one begins with a byte order mark and spells three characters in four ways. -/
def halves : Text := "'\\uDE00\\uD83D\\ud83d\\uDE00'+'\uFEFF\\x4a\\u004A\\uD83D\\ude00\\u\x7b0004A\x7d'"

/-- A named tree without children. -/
def halvesPiece (kind : SyntaxKind) (start stop : Nat) : SyntaxTree := .node { kind, start, stop } []

/-- The children of the first of the two literals. -/
def lonelyHalves : List SyntaxTree :=
  [.node { kind := .other "'", start := 0, stop := 1, named := false } [],
    halvesPiece .escapeSequence 1 7, halvesPiece .escapeSequence 7 13,
    halvesPiece .escapeSequence 13 19, halvesPiece .escapeSequence 19 25]

/-- The children of the second one. -/
def spelledHalves : List SyntaxTree :=
  [halvesPiece (.other "string_fragment") 28 31, halvesPiece .escapeSequence 31 35,
    halvesPiece .escapeSequence 35 41, halvesPiece .escapeSequence 41 47,
    halvesPiece .escapeSequence 47 53, halvesPiece .escapeSequence 53 62]

/-- Halves that meet from two escapes are joined, and lonely ones are replaced. -/
theorem stringValue_units_of_halves :
    (∃ value, stringValue halves lonelyHalves = .ok value ∧
      value.codeUnits = [0xFFFD, 0xFFFD, 0xD83D, 0xDE00] ∧
      ∀ c ∈ value, Text.isHalf c.toNat = false) ∧
    Spells halves (literalPieces spelledHalves) ['\uFEFF', 'J', 'J', '😀', 'J'] ∧
    stringValue halves spelledHalves = .ok ['\uFEFF', 'J', 'J', '😀', 'J'] := by
  have hLonely : PieceValues halves (literalPieces lonelyHalves)
      [[0xDE00], [0xD83D], [0xD83D], [0xDE00]] :=
    .cons rfl (.cons rfl (.cons rfl (.cons rfl .nil)))
  have hSpells : Spells halves (literalPieces spelledHalves) ['\uFEFF', 'J', 'J', '😀', 'J'] := by
    refine .raw (halvesPiece (.other "string_fragment") 28 31) (by decide) ?_
    refine .escaped [halvesPiece .escapeSequence 31 35] (by decide)
      (.byte ['4', 'a'] ⟨List.all_eq_true.mp rfl, by decide⟩ rfl) ?_
    refine .escaped [halvesPiece .escapeSequence 35 41] (by decide)
      (.short ['0', '0', '4', 'A'] ⟨List.all_eq_true.mp rfl, by decide⟩ rfl) ?_
    have hUnits : Text.units '😀'.toNat = [0xD83D, 0xDE00] := by decide
    refine .escaped [halvesPiece .escapeSequence 41 47, halvesPiece .escapeSequence 47 53] (by decide)
      (.pair ['D', '8', '3', 'D'] ['d', 'e', '0', '0'] hUnits ⟨List.all_eq_true.mp rfl, by decide⟩
        ⟨List.all_eq_true.mp rfl, by decide⟩ rfl rfl) ?_
    exact .escaped [halvesPiece .escapeSequence 53 62] (by decide)
      (.braced ['0', '0', '0', '4', 'A'] ⟨List.all_eq_true.mp rfl, by decide⟩ (by decide)) .nil
  exact ⟨(stringValue_units halves lonelyHalves).1 _ hLonely, hSpells,
    (stringValue_units halves spelledHalves).2 _ hSpells⟩

end SyntaxTree

end ClassTags

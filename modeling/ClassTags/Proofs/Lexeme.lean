import ClassTags.Grammar.Program
import Mathlib.Data.List.Infix
import Mathlib.Data.List.TakeWhile

/-!
# Lexemes are pieces of the text

A reader of a lexeme **splits** the text: the lexeme and the rest, one after the other, are the text
that it was given. So what a parser takes from the text stands in it, at the place where the parser
was.

Main results:

* `Splits` — the reader splits the text, with one lemma for each reader;
* `isSpace_of_mem_word` — a word has no white space.
-/

namespace ClassTags.Grammar

/-- A reader splits the text into a lexeme and the rest. -/
def Splits (read? : Text → Option Split) : Prop :=
  ∀ t lexeme rest, read? t = some (lexeme, rest) → t = lexeme ++ rest

/-- The text is a lexeme that the reader finds where nothing goes on. -/
def IsLexeme (read? : Text → Option Split) (lexeme : Text) : Prop :=
  ∃ rest, read? (lexeme ++ rest) = some (lexeme, rest)

/-- What a reader splits off is a lexeme of that reader. -/
theorem Splits.isLexeme {read? : Text → Option Split} (h : Splits read?) {t : Text} {s : Split}
    (hRead : read? t = some s) : IsLexeme read? s.1 := by
  obtain ⟨lexeme, rest⟩ := s
  exact ⟨rest, h t lexeme rest hRead ▸ hRead⟩

-- ---------------------------------------------------------------------------
-- Building blocks
-- ---------------------------------------------------------------------------

/-- A lexeme behind some text that is known. -/
theorem Splits.behind {read? : Text → Option Split} (h : Splits read?) (front : Text) {t : Text}
    {lexeme rest : Text}
    (hRead : ((read? t).map fun s => (front ++ s.1, s.2)) = some (lexeme, rest)) :
    front ++ t = lexeme ++ rest := by
  obtain ⟨s, hs, hEq⟩ := Option.map_eq_some_iff.mp hRead
  obtain ⟨rfl, rfl⟩ := Prod.mk.inj hEq
  rw [h t s.1 s.2 hs, List.append_assoc]

/-- The longest run of characters and what follows it make up the text. -/
theorem spanWhile_append (p : Char → Bool) (t : Text) : (spanWhile p t).1 ++ (spanWhile p t).2 = t :=
  List.takeWhile_append_dropWhile

/-- A reader that always reads splits the text if its two parts make it up. -/
theorem splits_some {f : Text → Split} (h : ∀ t, (f t).1 ++ (f t).2 = t) :
    Splits fun t => some (f t) := by
  intro t lexeme rest hRead
  rw [← h t, Option.some.inj hRead]

/-- The same for a reader that refuses to read nothing. -/
theorem splits_nonEmpty {f : Text → Split} (h : ∀ t, (f t).1 ++ (f t).2 = t) :
    Splits fun t => nonEmpty? (f t) := by
  intro t lexeme rest hRead
  dsimp only [nonEmpty?] at hRead
  split at hRead
  · exact nomatch hRead
  · exact splits_some h t lexeme rest hRead

/-- Pieces read one after the other are split off, by induction on their number. -/
theorem repeated_append {piece? : Text → Option Split} (h : Splits piece?) (fuel : Nat) (t : Text) :
    (repeated piece? fuel t).1 ++ (repeated piece? fuel t).2 = t := by
  induction fuel generalizing t with
  | zero => rfl
  | succ fuel ih =>
    rw [repeated]
    split
    case h_1 => rfl
    case h_2 piece rest hPiece =>
      rw [h t piece rest hPiece]
      simp [ih rest]

/-- As many pieces as there are can be split off. -/
theorem pieces_append {piece? : Text → Option Split} (h : Splits piece?) (t : Text) :
    (pieces piece? t).1 ++ (pieces piece? t).2 = t := repeated_append h t.length t

/-- A piece that may be missing can be split off. -/
theorem optional_append {piece? : Text → Option Split} (h : Splits piece?) (t : Text) :
    (optional piece? t).1 ++ (optional piece? t).2 = t := by
  unfold optional
  cases hPiece : piece? t with
  | none => rfl
  | some s => exact (h t s.1 s.2 hPiece).symm

-- ---------------------------------------------------------------------------
-- Words
-- ---------------------------------------------------------------------------

/-- The digits of an escape by code point are split off with what encloses them. -/
theorem splits_unicodeEscape : Splits unicodeEscape? := by
  intro t lexeme rest hRead
  unfold unicodeEscape? at hRead
  split at hRead
  case h_1 t =>
    split at hRead
    case h_1 d ds rest hSpan =>
      obtain ⟨rfl, rfl⟩ := Prod.mk.inj (Option.some.inj hRead)
      have hAppend := spanWhile_append isHexDigit t
      rw [hSpan] at hAppend
      simp [← hAppend]
    case h_2 => exact nomatch hRead
  case h_2 =>
    split at hRead
    · obtain ⟨rfl, rfl⟩ := Prod.mk.inj (Option.some.inj hRead)
      rfl
    · exact nomatch hRead
  case h_3 => exact nomatch hRead

/-- The forms of an escape by code point, without its backslash. -/
inductive UnicodeEscape : Text → Prop
  | braced (digits : Text) (hDigits : ∀ c ∈ digits, isHexDigit c = true) (hSome : digits ≠ []) :
    UnicodeEscape ('u' :: '{' :: digits ++ ['}'])
  | short (digits : Text) (hDigits : ∀ c ∈ digits, isHexDigit c = true)
      (hFour : digits.length = 4) : UnicodeEscape ('u' :: digits)

/-- An escape by code point has four digits, or digits in braces. -/
theorem unicodeEscape_cases {t : Text} {s : Split} (h : unicodeEscape? t = some s) :
    UnicodeEscape s.1 := by
  unfold unicodeEscape? at h
  split at h
  case h_1 t =>
    split at h
    case h_1 d ds rest hSpan =>
      have hHex : ∀ c ∈ d :: ds, isHexDigit c = true := by
        intro c hc
        have hc : c ∈ (spanWhile isHexDigit t).1 := by rwa [hSpan]
        exact List.mem_takeWhile_imp hc
      obtain rfl := Option.some.inj h
      exact .braced (d :: ds) hHex (List.cons_ne_nil d ds)
    case h_2 => exact nomatch h
  case h_2 a b c d rest _ =>
    split at h
    case isTrue hHex =>
      obtain rfl := Option.some.inj h
      simp only [Bool.and_eq_true, and_assoc] at hHex
      refine .short [a, b, c, d] ?_ rfl
      simpa only [List.forall_mem_cons, List.not_mem_nil, false_imp_iff, forall_const, and_true]
    case isFalse => exact nomatch h
  case h_3 => exact nomatch h

/-- A word is made of characters of names and of escapes. -/
theorem splits_wordPiece : Splits wordPiece? := by
  intro t lexeme rest hRead
  unfold wordPiece? at hRead
  split at hRead
  case h_1 t => exact splits_unicodeEscape.behind ['\\'] hRead
  case h_2 =>
    split at hRead
    · obtain ⟨rfl, rfl⟩ := Prod.mk.inj (Option.some.inj hRead)
      rfl
    · exact nomatch hRead
  case h_3 => exact nomatch hRead

/-- A word does not begin with a digit, and is split off piece by piece. -/
theorem splits_word : Splits word? := by
  intro t lexeme rest hRead
  unfold word? at hRead
  split at hRead
  · exact nomatch hRead
  · split at hRead
    · exact nomatch hRead
    · exact splits_nonEmpty (pieces_append splits_wordPiece) _ _ _ hRead

/-- A private name is split off with its sign. -/
theorem splits_privateName : Splits privateName? := by
  intro t lexeme rest hRead
  unfold privateName? at hRead
  split at hRead
  case h_1 t => exact splits_word.behind ['#'] hRead
  case h_2 => exact nomatch hRead

-- ---------------------------------------------------------------------------
-- Numerals
-- ---------------------------------------------------------------------------

/-- A separator is split off with the digit behind it. -/
theorem splits_digitPiece (isDigit : Char → Bool) : Splits (digitPiece? isDigit) := by
  intro t lexeme rest hRead
  unfold digitPiece? at hRead
  split at hRead
  case h_1 | h_2 =>
    split at hRead
    · obtain ⟨rfl, rfl⟩ := Prod.mk.inj (Option.some.inj hRead)
      rfl
    · exact nomatch hRead
  case h_3 => exact nomatch hRead

/-- A run of digits begins with a digit. -/
theorem splits_digitRun (isDigit : Char → Bool) : Splits (digitRun? isDigit) := by
  intro t lexeme rest hRead
  unfold digitRun? at hRead
  split at hRead
  case h_1 => exact nomatch hRead
  case h_2 c t =>
    split at hRead
    · have hDigits := pieces_append (splits_digitPiece isDigit) t
      generalize pieces (digitPiece? isDigit) t = digits at hRead hDigits
      obtain ⟨rfl, rfl⟩ := Prod.mk.inj (Option.some.inj hRead)
      rw [List.cons_append, hDigits]
    · exact nomatch hRead

/-- The letter that marks a big integer is split off if it is there. -/
theorem bigSuffix_append (t : Text) : (bigSuffix t).1 ++ (bigSuffix t).2 = t := by
  unfold bigSuffix
  split <;> rfl

/-- A numeral with a mark for its base is split off with the mark. -/
theorem markedNumeral_append {isDigit : Char → Bool} {mark t lexeme rest : Text}
    (hRead : markedNumeral? mark isDigit t = some (lexeme, rest)) : mark ++ t = lexeme ++ rest := by
  obtain ⟨⟨digits, after⟩, hDigits, hEq⟩ := Option.map_eq_some_iff.mp hRead
  have hSuffix := bigSuffix_append after
  dsimp only at hEq
  generalize bigSuffix after = suffix at hEq hSuffix
  obtain ⟨rfl, rfl⟩ := Prod.mk.inj hEq
  rw [splits_digitRun isDigit t digits after hDigits, List.append_assoc, hSuffix, List.append_assoc]

/-- An exponent is split off with its letter and its sign. -/
theorem splits_exponent : Splits exponent? := by
  intro t lexeme rest hRead
  unfold exponent? at hRead
  split at hRead
  case h_1 mark t =>
    split at hRead
    · split at hRead
      case h_1 sign ds =>
        split at hRead
        · exact (splits_digitRun Char.isDigit).behind [mark, sign] hRead
        · exact (splits_digitRun Char.isDigit).behind [mark] hRead
      case h_2 => exact nomatch hRead
    · exact nomatch hRead
  case h_2 => exact nomatch hRead

/-- A decimal numeral may have a fraction, an exponent or the mark of a big integer. -/
theorem splits_decimalNumeral : Splits decimalNumeral? := by
  intro t lexeme rest hRead
  obtain ⟨⟨whole, after⟩, hWhole, hEq⟩ := Option.map_eq_some_iff.mp hRead
  rw [splits_digitRun Char.isDigit t whole after hWhole]
  have hExponent := optional_append splits_exponent
  dsimp only at hEq
  split at hEq
  case h_1 after =>
    obtain ⟨rfl, rfl⟩ := Prod.mk.inj hEq
    simp
  case h_2 after =>
    have hFraction := optional_append (splits_digitRun Char.isDigit) after
    generalize optional (digitRun? Char.isDigit) after = split at hEq hFraction
    obtain ⟨fraction, after'⟩ := split
    have hExponent := hExponent after'
    split at hEq
    · dsimp only at hEq
      generalize optional exponent? after' = exponent at hEq hExponent
      obtain ⟨rfl, rfl⟩ := Prod.mk.inj hEq
      simp [← hFraction, ← hExponent]
    · obtain ⟨rfl, rfl⟩ := Prod.mk.inj hEq
      rfl
  case h_3 =>
    have hExponent := hExponent after
    split at hEq
    · generalize optional exponent? after = exponent at hEq hExponent
      obtain ⟨rfl, rfl⟩ := Prod.mk.inj hEq
      simp [← hExponent]
    · obtain ⟨rfl, rfl⟩ := Prod.mk.inj hEq
      rfl

/-- A numeral is marked for its base, begins with a point, or is decimal. -/
theorem splits_numeral : Splits numeral? := by
  intro t lexeme rest hRead
  unfold numeral? at hRead
  split at hRead
  case h_1 after =>
    obtain ⟨⟨fraction, after'⟩, hFraction, hEq⟩ := Option.map_eq_some_iff.mp hRead
    rw [splits_digitRun Char.isDigit after fraction after' hFraction]
    have hExponent := optional_append splits_exponent after'
    dsimp only at hEq
    generalize optional exponent? after' = exponent at hEq hExponent
    obtain ⟨rfl, rfl⟩ := Prod.mk.inj hEq
    simp [← hExponent]
  case h_2 mark after =>
    rcases Option.or_eq_some_iff.mp hRead with hMarked | ⟨-, hDecimal⟩
    · split at hMarked
      · exact markedNumeral_append hMarked
      · split at hMarked
        · exact markedNumeral_append hMarked
        · split at hMarked
          · exact markedNumeral_append hMarked
          · exact nomatch hMarked
    · exact splits_decimalNumeral _ _ _ hDecimal
  case h_3 => exact splits_decimalNumeral _ _ _ hRead

-- ---------------------------------------------------------------------------
-- Punctuators and comments
-- ---------------------------------------------------------------------------

/-- The longest punctuator that fits is split off. -/
theorem splits_punctuator : Splits punctuator? := by
  intro t lexeme rest hRead
  unfold punctuator? at hRead
  split at hRead
  case h_1 =>
    split at hRead
    all_goals
      obtain ⟨rfl, rfl⟩ := Prod.mk.inj (Option.some.inj hRead)
      rfl
  case h_2 =>
    obtain ⟨p, hFind, hEq⟩ := Option.map_eq_some_iff.mp hRead
    obtain ⟨rfl, rfl⟩ := Prod.mk.inj hEq
    have hPrefix := List.find?_some hFind
    exact List.prefix_append_drop (List.isPrefixOf_iff_prefix.mp hPrefix)

/-- A comment between stars ends with the first star and slash. -/
theorem splits_blockComment : Splits blockComment? := by
  intro t
  induction t using blockComment?.induct with
  | case1 => exact nofun
  | case2 rest =>
    intro lexeme rest' hRead
    rw [blockComment?] at hRead
    obtain ⟨rfl, rfl⟩ := Prod.mk.inj (Option.some.inj hRead)
    rfl
  | case3 c t hEnd ih =>
    intro lexeme rest hRead
    rw [blockComment?] at hRead
    · obtain ⟨s, hs, hEq⟩ := Option.map_eq_some_iff.mp hRead
      obtain ⟨rfl, rfl⟩ := Prod.mk.inj hEq
      rw [ih s.1 s.2 hs]
      rfl
    · exact hEnd

/-- A comment goes to the end of its line, or to its own end. -/
theorem splits_comment : Splits comment? := by
  intro t lexeme rest hRead
  unfold comment? at hRead
  split at hRead
  case h_1 t =>
    have hBody := spanWhile_append (fun c => !isLineBreak c && c != '\r') t
    generalize spanWhile (fun c => !isLineBreak c && c != '\r') t = body at hRead hBody
    obtain ⟨rfl, rfl⟩ := Prod.mk.inj (Option.some.inj hRead)
    simp [← hBody]
  case h_2 t => exact splits_blockComment.behind ['/', '*'] hRead
  case h_3 => exact nomatch hRead

/-- A comment in the form of markup goes to the end of its line. -/
theorem splits_htmlComment : Splits htmlComment? := by
  intro t lexeme rest hRead
  unfold htmlComment? at hRead
  split at hRead
  case h_1 | h_2 => exact splits_some (spanWhile_append (!isLineBreak ·)) _ _ _ hRead
  case h_3 => exact nomatch hRead

/-- The line that names an interpreter is split off without its end. -/
theorem splits_hashBang : Splits hashBang? := by
  intro t lexeme rest hRead
  unfold hashBang? at hRead
  split at hRead
  case h_1 t =>
    have hLine := spanWhile_append (· != '\n') t
    generalize spanWhile (· != '\n') t = line at hRead hLine
    obtain ⟨rfl, rfl⟩ := Prod.mk.inj (Option.some.inj hRead)
    simp [← hLine]
  case h_2 => exact nomatch hRead

-- ---------------------------------------------------------------------------
-- Pieces of literals
-- ---------------------------------------------------------------------------

/-- An escape sequence is split off with its backslash. -/
theorem splits_escape : Splits escape? := by
  intro t lexeme rest hRead
  unfold escape? at hRead
  split at hRead
  case h_1 =>
    split at hRead
    · obtain ⟨rfl, rfl⟩ := Prod.mk.inj (Option.some.inj hRead)
      rfl
    · exact nomatch hRead
  case h_2 c t _ =>
    split at hRead
    · exact nomatch hRead
    · split at hRead
      · exact splits_unicodeEscape.behind ['\\'] hRead
      · split at hRead
        · -- at most three octal digits
          have hMore : (spanWhile isOctalDigit (t.take 2)).1 <+: t :=
            ( List.takeWhile_prefix isOctalDigit).trans ( List.take_prefix 2 t)
          generalize spanWhile isOctalDigit (t.take 2) = more at hRead hMore
          obtain ⟨rfl, rfl⟩ := Prod.mk.inj (Option.some.inj hRead)
          rw [List.cons_append, List.cons_append, ← List.prefix_append_drop hMore]
        · split at hRead
          case h_1 =>
            split at hRead
            all_goals
              obtain ⟨rfl, rfl⟩ := Prod.mk.inj (Option.some.inj hRead)
              rfl
          case h_2 =>
            obtain ⟨rfl, rfl⟩ := Prod.mk.inj (Option.some.inj hRead)
            rfl
  case h_3 => exact nomatch hRead

/-- The forms of an escape sequence. -/
inductive EscapeSequence : Text → Prop
  | unicode {e : Text} (h : UnicodeEscape e) : EscapeSequence ('\\' :: e)
  | byte (digits : Text) (hDigits : ∀ c ∈ digits, isHexDigit c = true) (hTwo : digits.length = 2) :
    EscapeSequence ('\\' :: 'x' :: digits)
  | other (c : Char) (rest : Text) (hUnicode : c ≠ 'u') (hByte : c ≠ 'x') :
    EscapeSequence ('\\' :: c :: rest)

/-- An escape sequence has one of the forms that are told apart when it is decoded. -/
theorem escape_cases {t : Text} {s : Split} (h : escape? t = some s) : EscapeSequence s.1 := by
  unfold escape? at h
  split at h
  case h_1 a b rest =>
    split at h
    case isTrue hHex =>
      obtain rfl := Option.some.inj h
      simp only [Bool.and_eq_true] at hHex
      refine .byte [a, b] ?_ rfl
      simpa only [List.forall_mem_cons, List.not_mem_nil, false_imp_iff, forall_const, and_true]
    case isFalse => exact nomatch h
  case h_2 c rest _ =>
    split at h
    · exact nomatch h
    case isFalse hByte =>
      split at h
      case isTrue hUnicode =>
        obtain ⟨e, he, rfl⟩ := Option.map_eq_some_iff.mp h
        exact .unicode (unicodeEscape_cases he)
      case isFalse hUnicode =>
        -- all other letters, also those that take digits or a line end with them
        have hOther : ∀ rest, EscapeSequence ('\\' :: c :: rest) := fun rest =>
          .other c rest (by simpa using hUnicode) (by simpa using hByte)
        split at h
        · obtain rfl := Option.some.inj h
          exact hOther _
        · split at h
          · split at h
            all_goals
              obtain rfl := Option.some.inj h
              exact hOther _
          · obtain rfl := Option.some.inj h
            exact hOther _
  case h_3 => exact nomatch h

/-- The lexeme of an escape sequence has one of its forms. -/
theorem escapeSequence_of_isLexeme {sequence : Text} (h : IsLexeme escape? sequence) :
    EscapeSequence sequence := by
  obtain ⟨rest, hRead⟩ := h
  exact escape_cases hRead

/-- In a regular expression a backslash takes the next character with it. -/
theorem splits_regexEscape : Splits regexEscape? := by
  intro t lexeme rest hRead
  unfold regexEscape? at hRead
  split at hRead
  case h_1 =>
    split at hRead
    · exact nomatch hRead
    · obtain ⟨rfl, rfl⟩ := Prod.mk.inj (Option.some.inj hRead)
      rfl
  case h_2 => exact nomatch hRead

/-- A set of characters is made of escapes and of characters other than the closing bracket. -/
theorem splits_classPiece : Splits classPiece? := by
  intro t lexeme rest hRead
  unfold classPiece? at hRead
  split at hRead
  case h_1 => exact splits_regexEscape _ _ _ hRead
  case h_2 =>
    split at hRead
    · exact nomatch hRead
    · obtain ⟨rfl, rfl⟩ := Prod.mk.inj (Option.some.inj hRead)
      rfl
  case h_3 => exact nomatch hRead

/-- The body of a regular expression is made of escapes, sets and single characters. -/
theorem splits_regexPiece : Splits regexPiece? := by
  intro t lexeme rest hRead
  unfold regexPiece? at hRead
  split at hRead
  case h_1 => exact splits_regexEscape _ _ _ hRead
  case h_2 after =>
    have hClass := pieces_append splits_classPiece after
    split at hRead
    case h_1 body rest' hPieces =>
      rw [hPieces] at hClass
      obtain ⟨rfl, rfl⟩ := Prod.mk.inj (Option.some.inj hRead)
      simp [← hClass]
    case h_2 => exact nomatch hRead
  case h_3 =>
    split at hRead
    · exact nomatch hRead
    · obtain ⟨rfl, rfl⟩ := Prod.mk.inj (Option.some.inj hRead)
      rfl
  case h_4 => exact nomatch hRead

theorem splits_regexBody : Splits regexBody? := splits_nonEmpty (pieces_append splits_regexPiece)

theorem splits_slash : Splits slash? := by
  intro t lexeme rest hRead
  unfold slash? at hRead
  split at hRead
  · obtain ⟨rfl, rfl⟩ := Prod.mk.inj (Option.some.inj hRead)
    rfl
  · exact nomatch hRead

/-- The first character can be split off. -/
theorem splits_firstChar : Splits fun t => some (t.take 1, t.drop 1) :=
  splits_some fun t => List.take_append_drop 1 t

/-- So can the first character of a text that passes a test. -/
theorem splits_firstCharIf (p : Text → Bool) :
    Splits fun t => if p t then some (t.take 1, t.drop 1) else none := by
  intro t lexeme rest hRead
  dsimp only at hRead
  split at hRead
  · exact splits_firstChar t lexeme rest hRead
  · exact nomatch hRead

theorem splits_spanWhile (p : Char → Bool) : Splits fun t => some (spanWhile p t) :=
  splits_some (spanWhile_append p)

-- ---------------------------------------------------------------------------
-- The characters of words
-- ---------------------------------------------------------------------------

/-- What holds of the characters of each piece holds of those of all pieces. -/
theorem mem_repeated {piece? : Text → Option Split} {P : Char → Prop}
    (h : ∀ t s, piece? t = some s → ∀ c ∈ s.1, P c) (fuel : Nat) (t : Text) :
    ∀ c ∈ (repeated piece? fuel t).1, P c := by
  induction fuel generalizing t with
  | zero => exact nofun
  | succ fuel ih =>
    rw [repeated]
    split
    case h_1 => exact nofun
    case h_2 piece rest hPiece =>
      intro c hc
      rcases List.mem_append.mp hc with hFirst | hRest
      · exact h t _ hPiece c hFirst
      · exact ih rest c hRest

/-- Hexadecimal digits by their code points. -/
theorem isHexDigit_iff {c : Char} :
    isHexDigit c = true ↔
      48 ≤ c.toNat ∧ c.toNat ≤ 57 ∨ 97 ≤ c.toNat ∧ c.toNat ≤ 102 ∨
        65 ≤ c.toNat ∧ c.toNat ≤ 70 := by
  simp only [isHexDigit, Char.isDigit, Bool.or_eq_true, Bool.and_eq_true, decide_eq_true_eq,
    Char.le_def, UInt32.le_iff_toNat_le, ge_iff_le, or_assoc]
  exact Iff.rfl

theorem not_isSpace_of_isHexDigit {c : Char} (h : isHexDigit c = true) : isSpace c = false := by
  rw [isHexDigit_iff] at h
  simp only [isSpace, Bool.or_eq_false_iff, Bool.and_eq_false_iff, decide_eq_false_iff_not,
    beq_eq_false_iff_ne]
  omega

/-- An escape by code point has no white space in it. -/
theorem not_isSpace_of_mem_unicodeEscape {t : Text} {s : Split} (h : unicodeEscape? t = some s) :
    ∀ c ∈ s.1, isSpace c = false := by
  generalize hEscape : s.1 = e
  cases hEscape ▸ unicodeEscape_cases h with
  | braced digits hDigits =>
    intro c hc
    simp only [List.cons_append, List.mem_cons, List.mem_append, List.not_mem_nil, or_false] at hc
    rcases hc with rfl | rfl | hc | rfl
    · rfl
    · rfl
    · exact not_isSpace_of_isHexDigit (hDigits c hc)
    · rfl
  | short digits hDigits =>
    exact List.forall_mem_cons.mpr ⟨rfl, fun c hc => not_isSpace_of_isHexDigit (hDigits c hc)⟩

/-- A piece of a word has no white space in it. -/
theorem not_isSpace_of_mem_wordPiece {t : Text} {s : Split} (h : wordPiece? t = some s) :
    ∀ c ∈ s.1, isSpace c = false := by
  unfold wordPiece? at h
  split at h
  case h_1 t =>
    obtain ⟨e, he, rfl⟩ := Option.map_eq_some_iff.mp h
    exact List.forall_mem_cons.mpr ⟨rfl, not_isSpace_of_mem_unicodeEscape he⟩
  case h_2 c rest _ =>
    split at h
    case isTrue hWord =>
      obtain rfl := Option.some.inj h
      have hSpace : isSpace c = false := by
        simp only [isWordChar, Bool.and_eq_true, Bool.not_eq_true'] at hWord
        exact hWord.1.2
      exact List.forall_mem_singleton.mpr hSpace
    case isFalse => exact nomatch h
  case h_3 => exact nomatch h

/-- A word has no white space. -/
theorem not_isSpace_of_mem_word {t : Text} {s : Split} (h : word? t = some s) :
    ∀ c ∈ s.1, isSpace c = false := by
  unfold word? at h
  split at h
  · exact nomatch h
  · split at h
    · exact nomatch h
    · dsimp only [nonEmpty?] at h
      split at h
      · exact nomatch h
      · obtain rfl := Option.some.inj h
        exact mem_repeated (fun _ _ => not_isSpace_of_mem_wordPiece) _ _

/-- A private name has no white space in it. -/
theorem not_isSpace_of_mem_privateName {t : Text} {s : Split} (h : privateName? t = some s) :
    ∀ c ∈ s.1, isSpace c = false := by
  unfold privateName? at h
  split at h
  · obtain ⟨w, hw, rfl⟩ := Option.map_eq_some_iff.mp h
    exact List.forall_mem_cons.mpr ⟨rfl, not_isSpace_of_mem_word hw⟩
  · exact nomatch h

end ClassTags.Grammar

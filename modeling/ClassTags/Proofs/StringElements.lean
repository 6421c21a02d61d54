import ClassTags.Proofs.Parsing
import ClassTags.Proofs.Reading
import ClassTags.Proofs.StringUnits

/-!
# String literals by their elements

The language reads a string literal as a row of **elements**, each of which contributes code units
to its value. The grammar takes other pieces: runs of characters, and escape sequences that may go
one character further than the element they begin with. So the two readings are compared piece by
piece.

They differ in three places. An octal escape of two digits, of which the first is four or more,
takes a third octal digit as its own. A line separator or a paragraph separator behind a backslash
stands for itself, where it should continue the line. And behind a backslash and a carriage return,
one of these separators is passed over, where it should stand for itself. Everywhere else the value
is the one that the language gives to the literal.

Main definitions:

* `StringElement` — the elements of a string literal, with their text and their units;
* `StringElement.areLiteral` — elements that stand between two quotes;
* `StringElement.unitsRead` — the units that are read from a row of elements;
* `StringElement.Faithful` — none of the three differences occurs.

Main results:

* `StringElement.exists_piece` — the next piece of a literal, and what it contributes;
* `Grammar.stringLiteral_value` — the value of a string literal.
-/

namespace ClassTags

open Grammar

/-- An element of a string literal. -/
inductive StringElement where
  /-- A character that stands for itself. -/
  | raw (c : Char)
  /-- A backslash and a character that is no digit or mark of another escape. -/
  | single (c : Char)
  /-- `\x` and two digits. -/
  | byte (digits : Text)
  /-- `\u` and four digits. -/
  | short (digits : Text)
  /-- `\u` and digits in braces. -/
  | braced (digits : Text)
  /-- A backslash and octal digits. -/
  | octal (digits : Text)
  /-- A backslash and the end of a line. -/
  | continuation (lineEnd : Text)
deriving DecidableEq

namespace StringElement

-- ---------------------------------------------------------------------------
-- What the language says
-- ---------------------------------------------------------------------------

/-- How an element is written. -/
def text : StringElement → Text
  | raw c => [c]
  | single c => ['\\', c]
  | byte digits => '\\' :: 'x' :: digits
  | short digits => '\\' :: 'u' :: digits
  | braced digits => '\\' :: 'u' :: '{' :: digits ++ ['}']
  | octal digits => '\\' :: digits
  | continuation lineEnd => '\\' :: lineEnd

/-- The units of a character behind a backslash. -/
def singleUnits (c : Char) : List Nat :=
  if c = 'b' then [8]
  else if c = 't' then [9]
  else if c = 'n' then [10]
  else if c = 'v' then [11]
  else if c = 'f' then [12]
  else if c = 'r' then [13]
  else Text.units c.toNat

/-- The units that an element contributes to the value of its literal. -/
def units : StringElement → List Nat
  | raw c => Text.units c.toNat
  | single c => singleUnits c
  | byte digits => [Literal.spelled 16 digits]
  | short digits => [Literal.spelled 16 digits]
  | braced digits => Text.units (Literal.spelled 16 digits)
  | octal digits => [Literal.spelled 8 digits]
  | continuation _ => []

/-- The line separator and the paragraph separator. -/
def isSeparator (c : Char) : Bool := c.toNat == 0x2028 || c.toNat == 0x2029

/-- The most digits of an octal escape that begins with the given one: its value is at most 255. -/
def octalWidth (first : Char) : Nat := if first ≤ '3' then 3 else 2

/-- Whether a text is the end of a line, in front of the given character. -/
def isLineEnd (next : Char) : Text → Bool
  | ['\r'] => next != '\n'
  | ['\r', '\n'] => true
  | [c] => c == '\n' || isSeparator c
  | _ => false

/-- Whether an element may stand before the given character in a literal with the given quote. -/
def fits (quote next : Char) : StringElement → Bool
  | raw c => c != quote && c != '\\' && c != '\n' && c != '\r'
  | single c =>
    c != 'x' && c != 'u' && !isOctalDigit c && c != '\n' && c != '\r' && !isSeparator c
  | byte digits => digits.all isHexDigit && digits.length == 2
  | short digits => digits.all isHexDigit && digits.length == 4
  | braced digits =>
    digits.all isHexDigit && !digits.isEmpty && decide (Literal.spelled 16 digits ≤ 0x10FFFF)
  | octal [] => false
  | octal (d :: ds) =>
    (d :: ds).all isOctalDigit && decide (ds.length < octalWidth d) &&
      (ds.length + 1 == octalWidth d || !isOctalDigit next)
  | continuation lineEnd => isLineEnd next lineEnd

/-- The text of elements. -/
def body (es : List StringElement) : Text := es.flatMap text

/-- Whether elements stand between two quotes: each of them may stand before the next one, and the
last one before the quote. -/
def areLiteral (quote : Char) : List StringElement → Bool
  | [] => true
  | e :: es => e.fits quote ((body es).head?.getD quote) && areLiteral quote es

-- ---------------------------------------------------------------------------
-- What is read
-- ---------------------------------------------------------------------------

/-- The units that are read from an element alone. -/
def unitsAlone : StringElement → List Nat
  | continuation [c] => if isSeparator c then Text.units c.toNat else []
  | e => e.units

/-- Whether an element takes the next one as its own. -/
def takes : StringElement → StringElement → Bool
  | octal [a, _], raw d => '4' ≤ a && isOctalDigit d
  | continuation ['\r'], raw d => isSeparator d
  | _, _ => false

/-- The units that are read from an element and the next one that it takes. -/
def unitsWith : StringElement → StringElement → List Nat
  | octal digits, raw d => [Literal.spelled 8 (digits ++ [d])]
  | _, _ => []

/-- The units that are read from a row of elements. -/
def unitsRead : List StringElement → List Nat
  | [] => []
  | [e] => e.unitsAlone
  | e :: next :: es =>
    if e.takes next then e.unitsWith next ++ unitsRead es
    else e.unitsAlone ++ unitsRead (next :: es)

/-- The element is a backslash before a separator. -/
def keepsSeparator : StringElement → Bool
  | continuation [c] => isSeparator c
  | _ => false

/-- The elements are read as the language says: there is no separator behind a backslash, and no
element takes the next one as its own. -/
structure Faithful (es : List StringElement) : Prop where
  separators : ∀ e ∈ es, e.keepsSeparator = false
  alone : es.IsChain fun e next => e.takes next = false

/-- An element that keeps no separator has its units alone. -/
theorem unitsAlone_of_not_keepsSeparator {e : StringElement} (h : e.keepsSeparator = false) :
    e.unitsAlone = e.units := by
  unfold unitsAlone
  split
  case h_1 c => exact if_neg (ne_true_of_eq_false h)
  case h_2 => rfl

/-- Elements without one of the differences are read as the language says. -/
theorem Faithful.unitsRead_eq {es : List StringElement} (h : Faithful es) :
    unitsRead es = es.flatMap units := by
  induction es using unitsRead.induct with
  | case1 => rfl
  | case2 e =>
    rw [unitsRead, unitsAlone_of_not_keepsSeparator (h.separators e List.mem_cons_self),
      List.flatMap_singleton]
  | case3 e next es hTakes =>
    rw [(List.isChain_cons_cons.mp h.alone).1] at hTakes
    cases hTakes
  | case4 e next es hTakes ih =>
    obtain ⟨hFirst, hOthers⟩ := List.forall_mem_cons.mp h.separators
    rw [unitsRead, if_neg hTakes, ih ⟨hOthers, (List.isChain_cons_cons.mp h.alone).2⟩,
      unitsAlone_of_not_keepsSeparator hFirst, List.flatMap_cons (x := e)]

/-- An element that takes nothing of the next one is read alone. -/
theorem unitsRead_cons {e : StringElement} {es : List StringElement}
    (h : ∀ next ∈ es.head?, e.takes next = false) : unitsRead (e :: es) = e.unitsAlone ++ unitsRead es := by
  cases es with
  | nil => simp [unitsRead]
  | cons next es => rw [unitsRead, if_neg (ne_true_of_eq_false (h next rfl))]

-- ---------------------------------------------------------------------------
-- The next piece
-- ---------------------------------------------------------------------------

/-- The characters that need no escape in a literal with the given quote. -/
def isPlain (quote d : Char) : Bool := d != quote && d != '\\' && d != '\r' && d != '\n'

/-- The piece at the head of a text, with its kind. -/
def piece? (quote : Char) (t : Text) : Option (SyntaxKind × Split) :=
  match nonEmpty? (spanWhile (isPlain quote) t) with
  | some s => some (.other "string_fragment", s)
  | none => (escape? t).map fun s => (.escapeSequence, s)

/-- The code points of a piece. -/
def pieceCodes (kind : SyntaxKind) (lexeme : Text) : Except Literal.Failure (List Nat) :=
  if kind = .escapeSequence then Literal.escapeValue lexeme else .ok (Literal.codePoints lexeme)

variable {quote d : Char} {t lexeme after : Text} {e : StringElement} {es rest : List StringElement}

@[simp]
theorem body_nil : body [] = [] := rfl

@[simp]
theorem body_cons : body (e :: es) = e.text ++ body es := rfl

/-- Elements make up a literal if the first one fits before what comes next. -/
theorem areLiteral_cons :
    areLiteral quote (e :: es) = true ↔
      e.fits quote ((body es).head?.getD quote) = true ∧ areLiteral quote es = true := by
  rw [areLiteral, Bool.and_eq_true]

/-- What follows in a literal: its quote, a backslash, or a character that stands for itself. -/
inductive Follows (quote : Char) (after : Text) : List StringElement → Char → Text → Prop
  | finish : Follows quote after [] quote after
  | char {c : Char} {es : List StringElement} (hLiteral : areLiteral quote es = true) :
    Follows quote after (raw c :: es) c (body es ++ quote :: after)
  | escape {es : List StringElement} {t : Text} (hNext : ∀ c, raw c ∉ es.head?) :
    Follows quote after es '\\' t

/-- After elements comes the quote, or the first character of the next element. -/
theorem exists_follows (h : areLiteral quote es = true) (after : Text) :
    ∃ d t, body es ++ quote :: after = d :: t ∧ (body es).head?.getD quote = d ∧
      Follows quote after es d t := by
  cases es with
  | nil => exact ⟨quote, after, rfl, rfl, .finish⟩
  | cons e es =>
    have hEscape : ∀ {t}, e.text = '\\' :: t → (∀ c, e ≠ StringElement.raw c) →
        ∃ d t, body (e :: es) ++ quote :: after = d :: t ∧
          (body (e :: es)).head?.getD quote = d ∧ Follows quote after (e :: es) d t := by
      intro t hText hRaw
      refine ⟨'\\', t ++ (body es ++ quote :: after), by simp [hText], by simp [hText], .escape ?_⟩
      intro c hc
      exact hRaw c (Option.some.inj hc)
    cases e with
    | raw c => exact ⟨c, body es ++ quote :: after, rfl, rfl, .char (areLiteral_cons.mp h).2⟩
    | single c => exact hEscape rfl nofun
    | byte digits => exact hEscape rfl nofun
    | short digits => exact hEscape rfl nofun
    | braced digits => exact hEscape rfl nofun
    | octal digits => exact hEscape rfl nofun
    | continuation lineEnd => exact hEscape rfl nofun

/-- An escape sequence is a piece of a string. -/
theorem piece?_escape {s : Split} (h : escape? ('\\' :: t) = some s) :
    piece? quote ('\\' :: t) = some (.escapeSequence, s) := by
  have hPlain : isPlain quote '\\' = false := by simp [isPlain]
  rw [piece?, spanWhile, List.takeWhile_cons_of_neg (by simp [hPlain]), h]
  rfl

-- ---------------------------------------------------------------------------
-- Escape sequences
-- ---------------------------------------------------------------------------

/-- An escape by a byte takes its two digits. -/
theorem escape?_byte {digits : Text} (hHex : digits.all isHexDigit = true) (hTwo : digits.length = 2)
    (t : Text) : escape? ('\\' :: 'x' :: digits ++ t) = some ('\\' :: 'x' :: digits, t) := by
  obtain ⟨a, b, rfl⟩ := List.length_eq_two.mp hTwo
  simp only [List.all_cons, List.all_nil, Bool.and_true] at hHex
  simp only [List.cons_append, List.nil_append]
  rw [escape?, if_pos hHex]

/-- An escape sequence that is not marked as a byte. -/
theorem escape?_cons {c : Char} (hByte : c ≠ 'x') (t : Text) :
    escape? ('\\' :: c :: t) =
      if c == 'u' then (unicodeEscape? (c :: t)).map fun (e, rest) => ('\\' :: e, rest)
      else if isOctalDigit c then
        some ('\\' :: c :: (t.take 2).takeWhile isOctalDigit,
          t.drop ((t.take 2).takeWhile isOctalDigit).length)
      else
        match t with
        | d :: t' =>
          if (c == '\r' || c == '?') && isLineBreak d then some (['\\', c, d], t')
          else some (['\\', c], d :: t')
        | [] => some (['\\', c], []) := by
  unfold escape?
  split
  case h_1 hCons => exact absurd (List.cons.inj (List.cons.inj hCons).2).1 hByte
  case h_2 hCons =>
    obtain ⟨rfl, rfl⟩ := List.cons.inj (List.cons.inj hCons).2
    rw [if_neg (by simpa using hByte)]
    cases t with
    | nil => rfl
    | cons d t => rfl
  case h_3 hNone => exact absurd rfl (hNone c t)

theorem escape?_of_unicodeEscape? {s : Split} (h : unicodeEscape? ('u' :: t) = some s) :
    escape? ('\\' :: 'u' :: t) = some ('\\' :: s.1, s.2) := by
  rw [escape?_cons (by decide), if_pos (by decide), h]
  rfl

/-- An escape without braces takes its four digits. -/
theorem escape?_short {digits : Text} (hHex : digits.all isHexDigit = true) (hFour : digits.length = 4)
    (t : Text) : escape? ('\\' :: 'u' :: digits ++ t) = some ('\\' :: 'u' :: digits, t) := by
  obtain ⟨a, b, c, d, rfl⟩ : ∃ a b c d, digits = [a, b, c, d] := by
    match digits, hFour with
    | [a, b, c, d], _ => exact ⟨a, b, c, d, rfl⟩
  simp only [List.all_cons, List.all_nil, Bool.and_true, Bool.and_eq_true] at hHex
  have hBrace : a ≠ '{' := by
    rintro rfl
    exact absurd hHex.1 (by decide)
  have hRead : unicodeEscape? ('u' :: a :: b :: c :: d :: t) = some (['u', a, b, c, d], t) := by
    unfold unicodeEscape?
    split
    · rename_i hCons
      exact absurd (List.cons.inj (List.cons.inj hCons).2).1 hBrace
    · rename_i hCons
      simp only [List.cons.injEq, true_and] at hCons
      obtain ⟨rfl, rfl, rfl, rfl, rfl⟩ := hCons
      rw [if_pos (by simp [hHex])]
    · rename_i hNone
      exact absurd rfl (hNone a b c d t)
  exact escape?_of_unicodeEscape? hRead

/-- An escape with braces takes all digits between them. -/
theorem escape?_braced {digits : Text} (hHex : digits.all isHexDigit = true) (hSome : digits ≠ [])
    (t : Text) : escape? ('\\' :: 'u' :: '{' :: digits ++ ['}'] ++ t) =
      some ('\\' :: 'u' :: '{' :: digits ++ ['}'], t) := by
  obtain ⟨a, ds, rfl⟩ := List.exists_cons_of_ne_nil hSome
  have hSpan : spanWhile isHexDigit (a :: ds ++ '}' :: t) = (a :: ds, '}' :: t) := by
    have hAll : ∀ c ∈ a :: ds, isHexDigit c = true := List.all_eq_true.mp hHex
    rw [spanWhile, List.takeWhile_append_of_pos hAll, List.dropWhile_append_of_pos hAll,
      List.takeWhile_cons_of_neg (by decide), List.dropWhile_cons_of_neg (by decide), List.append_nil]
  have hRead : unicodeEscape? ('u' :: '{' :: (a :: ds ++ '}' :: t)) =
      some ('u' :: '{' :: a :: ds ++ ['}'], t) := by
    rw [unicodeEscape?, hSpan]
    rfl
  simpa using escape?_of_unicodeEscape? hRead

/-- An escape sequence that begins with an octal digit takes at most two more. -/
theorem escape?_octal {c : Char} (hOctal : isOctalDigit c = true) (t : Text) :
    escape? ('\\' :: c :: t) =
      some ('\\' :: c :: (t.take 2).takeWhile isOctalDigit,
        t.drop ((t.take 2).takeWhile isOctalDigit).length) := by
  have hMark : ∀ m, isOctalDigit m = false → c ≠ m := by
    rintro m hm rfl
    rw [hOctal] at hm
    cases hm
  rw [escape?_cons (hMark 'x' (by decide)), if_neg (by simpa using hMark 'u' (by decide)),
    if_pos hOctal]

/-- An escape sequence of any other character takes a line break only behind a carriage return or a
question mark. -/
theorem escape?_other {c : Char} (hByte : c ≠ 'x') (hUnicode : c ≠ 'u')
    (hOctal : isOctalDigit c = false) :
    escape? ('\\' :: c :: d :: t) =
      if (c == '\r' || c == '?') && isLineBreak d then some (['\\', c, d], t)
      else some (['\\', c], d :: t) := by
  rw [escape?_cons hByte, if_neg (by simpa using hUnicode), if_neg (by simp [hOctal])]

-- ---------------------------------------------------------------------------
-- One piece for each element
-- ---------------------------------------------------------------------------

/-- A piece of a literal: the elements that are left behind it, and what it contributes. -/
structure IsPiece (quote : Char) (after : Text) (es : List StringElement) (kind : SyntaxKind)
    (lexeme : Text) (rest : List StringElement) (codes : List Nat) : Prop where
  read : piece? quote (body es ++ quote :: after) = some (kind, lexeme, body rest ++ quote :: after)
  shorter : rest.length < es.length
  areLiteral : areLiteral quote rest = true
  value : pieceCodes kind lexeme = .ok codes
  units : unitsRead es = codes.flatMap Text.units ++ unitsRead rest

/-- Some piece is next. -/
def HasPiece (quote : Char) (after : Text) (es : List StringElement) : Prop :=
  ∃ kind lexeme rest codes, IsPiece quote after es kind lexeme rest codes

/-- An escape sequence that is read from one element alone. -/
theorem HasPiece.alone {codes : List Nat} (hLiteral : StringElement.areLiteral quote es = true)
    (hRead : escape? (e.text ++ (body es ++ quote :: after)) = some (e.text, body es ++ quote :: after))
    (hEscape : ∃ t, e.text = '\\' :: t) (hCodes : Literal.escapeValue e.text = .ok codes)
    (hUnits : codes.flatMap Text.units = e.unitsAlone)
    (hTakes : ∀ next ∈ es.head?, e.takes next = false) : HasPiece quote after (e :: es) := by
  obtain ⟨t, hText⟩ := hEscape
  refine ⟨.escapeSequence, e.text, es, codes, ?_, Nat.lt_succ_self _, hLiteral, hCodes, ?_⟩
  · rw [body_cons, List.append_assoc]
    rw [hText] at hRead ⊢
    exact piece?_escape hRead
  · rw [unitsRead_cons hTakes, hUnits]

/-- An escape sequence that is read from two elements. -/
theorem HasPiece.both {next : StringElement} {codes : List Nat}
    (hLiteral : StringElement.areLiteral quote es = true)
    (hRead : escape? (e.text ++ (next.text ++ (body es ++ quote :: after))) =
      some (e.text ++ next.text, body es ++ quote :: after))
    (hEscape : ∃ t, e.text = '\\' :: t)
    (hCodes : Literal.escapeValue (e.text ++ next.text) = .ok codes)
    (hUnits : unitsRead (e :: next :: es) = codes.flatMap Text.units ++ unitsRead es) :
    HasPiece quote after (e :: next :: es) := by
  obtain ⟨t, hText⟩ := hEscape
  refine ⟨.escapeSequence, e.text ++ next.text, es, codes, ?_, ?_, hLiteral, hCodes, hUnits⟩
  · rw [body_cons, body_cons, List.append_assoc, List.append_assoc]
    rw [hText] at hRead ⊢
    exact piece?_escape hRead
  · simp only [List.length_cons]
    omega

/-- An escape by a byte is a piece with the unit of its digits. -/
theorem hasPiece_byte {digits : Text} (hHex : digits.all isHexDigit = true) (hTwo : digits.length = 2)
    (hLiteral : StringElement.areLiteral quote es = true) :
    HasPiece quote after (byte digits :: es) := by
  have hNumeral : Literal.HexNumeral (Literal.spelled 16 digits) digits :=
    ⟨List.all_eq_true.mp hHex, rfl⟩
  have hSmall : Literal.spelled 16 digits < 256 := by
    have hLt := Literal.spelled_lt fun c hc => Literal.digitOf_lt (hNumeral.isHex c hc)
    rwa [hTwo] at hLt
  refine .alone hLiteral (escape?_byte hHex hTwo _) ⟨_, rfl⟩
    (hNumeral.escapeValue_byte hTwo (by omega)) ?_ fun _ _ => rfl
  rw [List.flatMap_singleton, Text.units_of_lt (by omega)]
  rfl

/-- An escape without braces is a piece with the unit of its digits. -/
theorem hasPiece_short {digits : Text} (hHex : digits.all isHexDigit = true)
    (hFour : digits.length = 4) (hLiteral : StringElement.areLiteral quote es = true) :
    HasPiece quote after (short digits :: es) := by
  have hNumeral : Literal.HexNumeral (Literal.spelled 16 digits) digits :=
    ⟨List.all_eq_true.mp hHex, rfl⟩
  have hSmall : Literal.spelled 16 digits < 65536 := by
    have hLt := Literal.spelled_lt fun c hc => Literal.digitOf_lt (hNumeral.isHex c hc)
    rwa [hFour] at hLt
  refine .alone hLiteral (escape?_short hHex hFour _) ⟨_, rfl⟩
    (hNumeral.escapeValue_short hFour (by omega)) ?_ fun _ _ => rfl
  rw [List.flatMap_singleton, Text.units_of_lt hSmall]
  rfl

/-- An escape with braces is a piece with the units of its digits, up to the greatest code point. -/
theorem hasPiece_braced {digits : Text} (hHex : digits.all isHexDigit = true) (hSome : digits ≠ [])
    (hBound : Literal.spelled 16 digits ≤ 0x10FFFF)
    (hLiteral : StringElement.areLiteral quote es = true) :
    HasPiece quote after (braced digits :: es) := by
  have hNumeral : Literal.HexNumeral (Literal.spelled 16 digits) digits :=
    ⟨List.all_eq_true.mp hHex, rfl⟩
  have hCodes : Literal.escapeValue (braced digits).text = .ok [Literal.spelled 16 digits] := by
    rw [text, Literal.escapeValue_braced]
    exact hNumeral.hexCodePoint hSome (by omega)
  refine .alone hLiteral (escape?_braced hHex hSome _) ⟨_, rfl⟩ hCodes ?_ fun _ _ => rfl
  rw [List.flatMap_singleton]
  rfl

/-- A character behind a backslash that begins no other escape. -/
theorem escapeValue_single {c : Char} (hOctal : isOctalDigit c = false) (hFeed : c ≠ '\n')
    (hReturn : c ≠ '\r') :
    Literal.escapeValue ['\\', c] = .ok [(Literal.letterEscape? c).getD c.toNat] := by
  have hNot : Literal.isOctalEscape [c] = false := by
    simpa [Literal.isOctalEscape, isOctalDigit] using hOctal
  show Literal.escapeBody [c] = _
  unfold Literal.escapeBody
  split
  case h_1 heq | h_2 heq | h_3 heq => cases heq
  case h_4 heq => exact absurd (List.cons.inj heq).1 hFeed
  case h_5 heq => exact absurd (List.cons.inj heq).1 hReturn
  case h_6 => rw [if_neg (ne_true_of_eq_false hNot)]

/-- A letter behind a backslash has the units of what it stands for. -/
theorem units_letterEscape (c : Char) :
    Text.units ((Literal.letterEscape? c).getD c.toNat) = singleUnits c := by
  unfold Literal.letterEscape?
  split
  case h_7 hn ht hr hb hf hv =>
    rw [singleUnits, if_neg hb, if_neg ht, if_neg hn, if_neg hv, if_neg hf, if_neg hr]
    rfl
  all_goals rfl

theorem isLineBreak_iff {c : Char} : isLineBreak c = true ↔ c = '\n' ∨ isSeparator c = true := by
  simp [isLineBreak, isSeparator, or_assoc]

theorem isSeparator_iff {c : Char} : isSeparator c = true ↔ c = '\u2028' ∨ c = '\u2029' := by
  simp only [isSeparator, Bool.or_eq_true, beq_iff_eq, ← Char.toNat_inj]
  exact Iff.rfl

/-- A line break in a literal is a separator that stands for itself. -/
theorem Follows.of_isLineBreak (h : Follows quote after es d t)
    (hLiteral : StringElement.areLiteral quote es = true) (hQuote : isLineBreak quote = false)
    (hBreak : isLineBreak d = true) :
    isSeparator d = true ∧ ∃ es', es = raw d :: es' ∧ t = body es' ++ quote :: after ∧
      StringElement.areLiteral quote es' = true := by
  cases h with
  | finish =>
    rw [hQuote] at hBreak
    cases hBreak
  | char hRest =>
    have hFits := (areLiteral_cons.mp hLiteral).1
    simp only [fits, Bool.and_eq_true, bne_iff_ne] at hFits
    rcases isLineBreak_iff.mp hBreak with rfl | hSeparator
    · exact absurd rfl hFits.1.2
    · exact ⟨hSeparator, _, rfl, rfl, hRest⟩
  | escape => exact absurd hBreak (by decide)

/-- What is no character that stands for itself is not taken by an element before it. -/
theorem Follows.not_takes (h : Follows quote after es d t) (e : StringElement)
    (hRaw : e.takes (raw d) = false) : ∀ next ∈ es.head?, e.takes next = false := by
  intro next hNext
  cases h with
  | finish => cases hNext
  | char =>
    obtain rfl := Option.some.inj hNext
    exact hRaw
  | escape hNone =>
    have hNot : ∀ c, next ≠ raw c := by
      rintro c rfl
      exact hNone c hNext
    unfold takes
    split
    · exact absurd rfl (hNot _)
    · exact absurd rfl (hNot _)
    · rfl

/-- A single character behind a backslash is a piece. -/
theorem hasPiece_single {c : Char} (hQuote : isLineBreak quote = false)
    (hFits : (single c).fits quote ((body es).head?.getD quote) = true)
    (hLiteral : StringElement.areLiteral quote es = true) :
    HasPiece quote after (single c :: es) := by
  simp only [fits, Bool.and_eq_true, bne_iff_ne, Bool.not_eq_true', and_assoc] at hFits
  obtain ⟨hByte, hUnicode, hOctal, hFeed, hReturn, -⟩ := hFits
  obtain ⟨d, t, hTail, -, hFollows⟩ := exists_follows hLiteral after
  have hRead : escape? ((single c).text ++ (body es ++ quote :: after)) =
      if (c == '\r' || c == '?') && isLineBreak d then some (['\\', c, d], t)
      else some (['\\', c], body es ++ quote :: after) := by
    rw [hTail]
    exact escape?_other hByte hUnicode hOctal
  split at hRead
  case isTrue hBoth =>
    simp only [Bool.and_eq_true, Bool.or_eq_true, beq_iff_eq, hReturn, false_or] at hBoth
    obtain ⟨rfl, hBreak⟩ := hBoth
    obtain ⟨-, es', rfl, rfl, hRest⟩ := hFollows.of_isLineBreak hLiteral hQuote hBreak
    have hCodes : Literal.escapeValue ['\\', '?', d] = .ok ['?'.toNat, d.toNat] := rfl
    refine .both hRest hRead ⟨_, rfl⟩ hCodes ?_
    rw [unitsRead_cons fun _ _ => rfl, unitsRead_cons fun _ _ => rfl]
    simp [unitsAlone, units, singleUnits]
  case isFalse =>
    refine .alone hLiteral hRead ⟨_, rfl⟩ (escapeValue_single hOctal hFeed hReturn) ?_ fun _ _ => rfl
    rw [List.flatMap_singleton, units_letterEscape]
    rfl

/-- An octal escape is worth its digits. -/
theorem escapeValue_octal {digits : Text} (hOctal : digits.all isOctalDigit = true)
    (hSome : digits ≠ []) (hFew : digits.length ≤ 3) :
    Literal.escapeValue ('\\' :: digits) = .ok [Literal.spelled 8 digits] ∧
      Literal.spelled 8 digits < 512 := by
  have hEscape : Literal.isOctalEscape digits = true := by
    have hLength := List.length_pos_of_ne_nil hSome
    simp only [Literal.isOctalEscape, Bool.and_eq_true, decide_eq_true_eq]
    exact ⟨⟨hLength, hFew⟩, hOctal⟩
  obtain ⟨hValue, hSmall⟩ := Literal.octal_lt hEscape
  refine ⟨?_, hSmall⟩
  have hFirst : ∀ {c t}, digits = c :: t → isOctalDigit c = true := by
    rintro c t rfl
    exact List.all_eq_true.mp hOctal c List.mem_cons_self
  show Literal.escapeBody digits = _
  unfold Literal.escapeBody
  split
  case h_1 | h_2 => exact absurd (hFirst rfl) (by decide)
  case h_3 => exact absurd (hFirst rfl) (by decide)
  case h_4 => exact absurd (hFirst rfl) (by decide)
  case h_5 => exact absurd (hFirst rfl) (by decide)
  case h_6 => rw [if_pos hEscape, hValue]

/-- An octal escape of which all digits are its own. -/
theorem hasPiece_octal_alone {a : Char} {ds : Text} (hOctal : (a :: ds).all isOctalDigit = true)
    (hFew : ds.length ≤ 2) (hLiteral : StringElement.areLiteral quote es = true)
    (hTail : ((ds ++ (body es ++ quote :: after)).take 2).takeWhile isOctalDigit = ds)
    (hTakes : ∀ next ∈ es.head?, (octal (a :: ds)).takes next = false) :
    HasPiece quote after (octal (a :: ds) :: es) := by
  have hFirst : isOctalDigit a = true := List.all_eq_true.mp hOctal a List.mem_cons_self
  obtain ⟨hCodes, hSmall⟩ := escapeValue_octal hOctal (List.cons_ne_nil a ds) (Nat.succ_le_succ hFew)
  refine .alone hLiteral ?_ ⟨_, rfl⟩ hCodes ?_ hTakes
  · show escape? ('\\' :: a :: (ds ++ (body es ++ quote :: after))) = _
    rw [escape?_octal hFirst, hTail, List.drop_left]
    rfl
  · rw [List.flatMap_singleton, Text.units_of_lt (by omega)]
    rfl

/-- An octal escape has up to three digits, or up to two if the first one is large. -/
theorem octalWidth_cases (a : Char) : octalWidth a = 3 ∨ octalWidth a = 2 ∧ '4' ≤ a := by
  unfold octalWidth
  split
  case isTrue => exact .inl rfl
  case isFalse hLe => exact .inr ⟨rfl, not_lt.mp fun hLt => hLe (Nat.lt_succ_iff.mp hLt)⟩

/-- An octal escape of two digits, of which the first is four or more, with a digit behind it that
is taken as a third one. -/
theorem hasPiece_octal_third {a b d : Char} (hOctal : [a, b].all isOctalDigit = true) (hLarge : '4' ≤ a)
    (hDigit : isOctalDigit d = true) (hRest : StringElement.areLiteral quote es = true) :
    HasPiece quote after (octal [a, b] :: raw d :: es) := by
  have hSecond : isOctalDigit b = true := List.all_eq_true.mp hOctal b (by simp)
  have hThree : [a, b, d].all isOctalDigit = true := by
    simp only [List.all_cons, List.all_nil, Bool.and_true, Bool.and_eq_true] at hOctal ⊢
    exact ⟨hOctal.1, hOctal.2, hDigit⟩
  obtain ⟨hCodes, hSmall⟩ := escapeValue_octal hThree (List.cons_ne_nil _ _) le_rfl
  refine .both hRest ?_ ⟨_, rfl⟩ hCodes ?_
  · show escape? ('\\' :: a :: b :: d :: (body es ++ quote :: after)) = _
    rw [escape?_octal (List.all_eq_true.mp hOctal a List.mem_cons_self)]
    simp [hSecond, hDigit, text]
  · have hTakes : (octal [a, b]).takes (raw d) = true := by simp [takes, hLarge, hDigit]
    rw [unitsRead, if_pos hTakes, List.flatMap_singleton, Text.units_of_lt (by omega)]
    rfl

/-- An octal escape is a piece with the unit of its digits. -/
theorem hasPiece_octal {digits : Text} (hQuote : isOctalDigit quote = false)
    (hFits : (octal digits).fits quote ((body es).head?.getD quote) = true)
    (hLiteral : StringElement.areLiteral quote es = true) :
    HasPiece quote after (octal digits :: es) := by
  obtain ⟨d, t, hTail, hHead, hFollows⟩ := exists_follows hLiteral after
  rw [hHead] at hFits
  -- the number of digits tells whether the next character could still belong to the escape
  match digits with
  | [] => cases hFits
  | [a] =>
    simp only [fits, Bool.and_eq_true, Bool.or_eq_true, Bool.not_eq_true', beq_iff_eq] at hFits
    obtain ⟨⟨hOctal, -⟩, hNext⟩ := hFits
    have hNext : isOctalDigit d = false := by
      refine hNext.resolve_left fun hWidth => ?_
      rw [List.length_nil] at hWidth
      rcases octalWidth_cases a with h | ⟨h, -⟩ <;> omega
    refine hasPiece_octal_alone hOctal (Nat.zero_le 2) hLiteral ?_ fun _ _ => rfl
    rw [hTail]
    simp [hNext]
  | [a, b] =>
    simp only [fits, Bool.and_eq_true, Bool.or_eq_true, Bool.not_eq_true', beq_iff_eq] at hFits
    obtain ⟨⟨hOctal, -⟩, hNext⟩ := hFits
    have hSecond : isOctalDigit b = true := List.all_eq_true.mp hOctal b (by simp)
    cases hDigit : isOctalDigit d with
    | false =>
      refine hasPiece_octal_alone hOctal (Nat.le_succ 1) hLiteral ?_ (hFollows.not_takes _ ?_)
      · rw [hTail]
        simp [hSecond, hDigit]
      · simp [takes, hDigit]
    | true =>
      -- a digit may follow only where the first one is too large for three
      have hLarge : '4' ≤ a := by
        have hWidth : 2 = octalWidth a := by simpa [hDigit] using hNext
        rcases octalWidth_cases a with h | ⟨-, hLarge⟩
        · omega
        · exact hLarge
      cases hFollows with
      | finish =>
        rw [hQuote] at hDigit
        cases hDigit
      | escape => exact absurd hDigit (by decide)
      | char hRest => exact hasPiece_octal_third hOctal hLarge hDigit hRest
  | [a, b, c] =>
    simp only [fits, Bool.and_eq_true] at hFits
    have hOctal := hFits.1.1
    simp only [List.all_cons, List.all_nil, Bool.and_true, Bool.and_eq_true] at hOctal
    refine hasPiece_octal_alone hFits.1.1 le_rfl hLiteral ?_ fun _ _ => rfl
    simp [hOctal.2.1, hOctal.2.2]
  | a :: b :: c :: x :: ds =>
    simp only [fits, Bool.and_eq_true, decide_eq_true_eq, List.length_cons] at hFits
    rcases octalWidth_cases a with h | ⟨h, -⟩ <;> omega

/-- A line end behind a backslash is a piece. -/
theorem hasPiece_continuation {lineEnd : Text} (hQuote : isLineBreak quote = false)
    (hFits : (continuation lineEnd).fits quote ((body es).head?.getD quote) = true)
    (hLiteral : StringElement.areLiteral quote es = true) :
    HasPiece quote after (continuation lineEnd :: es) := by
  obtain ⟨d, t, hTail, hHead, hFollows⟩ := exists_follows hLiteral after
  rw [hHead] at hFits
  have hRead : ∀ {c}, c ≠ 'x' → c ≠ 'u' → isOctalDigit c = false →
      escape? ((continuation [c]).text ++ (body es ++ quote :: after)) =
        if (c == '\r' || c == '?') && isLineBreak d then some (['\\', c, d], t)
        else some (['\\', c], body es ++ quote :: after) := by
    intro c hByte hUnicode hOctal
    rw [hTail]
    exact escape?_other hByte hUnicode hOctal
  have hFits : isLineEnd d lineEnd = true := hFits
  unfold isLineEnd at hFits
  split at hFits
  case h_1 =>
    have hRead := hRead (c := '\r') (by decide) (by decide) (by decide)
    split at hRead
    case isTrue hBreak =>
      -- the separator behind the carriage return is passed over with it
      obtain ⟨hSeparator, es', rfl, rfl, hRest⟩ :=
        hFollows.of_isLineBreak hLiteral hQuote (by simpa using hBreak)
      have hCodes : Literal.escapeValue ['\\', '\r', d] = .ok [] := rfl
      refine .both hRest hRead ⟨_, rfl⟩ hCodes ?_
      have hTakes : (continuation ['\r']).takes (raw d) = true := hSeparator
      rw [unitsRead, if_pos hTakes]
      rfl
    case isFalse hBreak =>
      have hCodes : Literal.escapeValue ['\\', '\r'] = .ok [] := rfl
      refine .alone hLiteral hRead ⟨_, rfl⟩ hCodes rfl (hFollows.not_takes _ ?_)
      have hSeparator : isSeparator d = false := by
        rw [Bool.eq_false_iff]
        exact fun hSeparator => hBreak (by simp [isLineBreak_iff.mpr (.inr hSeparator)])
      exact hSeparator
  case h_2 =>
    have hCodes : Literal.escapeValue ['\\', '\r', '\n'] = .ok [] := rfl
    exact .alone hLiteral (escape?_other (by decide) (by decide) (by decide)) ⟨_, rfl⟩ hCodes rfl
      fun _ _ => rfl
  case h_3 c hReturn =>
    rw [Bool.or_eq_true, beq_iff_eq] at hFits
    rcases hFits with rfl | hSeparator
    · have hCodes : Literal.escapeValue ['\\', '\n'] = .ok [] := rfl
      exact .alone hLiteral (hRead (c := '\n') (by decide) (by decide) (by decide)) ⟨_, rfl⟩ hCodes rfl
        fun _ _ => rfl
    · rcases isSeparator_iff.mp hSeparator with rfl | rfl
      all_goals
        refine .alone hLiteral (hRead (by decide) (by decide) (by decide)) ⟨_, rfl⟩
          (escapeValue_single (by decide) (by decide) (by decide)) rfl fun _ _ => rfl
  case h_4 => cases hFits

-- ---------------------------------------------------------------------------
-- Runs of characters
-- ---------------------------------------------------------------------------

/-- The characters at the head of a literal that stand for themselves, and the elements behind
them. -/
structure IsRun (quote : Char) (after : Text) (es : List StringElement) (run : Text)
    (rest : List StringElement) : Prop where
  body_eq : body es = run ++ body rest
  isPlain : ∀ c ∈ run, isPlain quote c = true
  areLiteral : areLiteral quote rest = true
  stops : ∀ d ∈ (body rest ++ quote :: after).head?, StringElement.isPlain quote d = false
  units : unitsRead es = (Literal.codePoints run).flatMap Text.units ++ unitsRead rest
  length_eq : rest.length + run.length = es.length

theorem isPlain_of_fits {c next : Char} (h : (raw c).fits quote next = true) :
    isPlain quote c = true := by
  simp only [fits, Bool.and_eq_true, and_assoc] at h
  simp [isPlain, h]

/-- Raw characters come in runs, up to the next backslash or quote. -/
theorem exists_run (hLiteral : StringElement.areLiteral quote es = true) (after : Text) :
    ∃ run rest, IsRun quote after es run rest := by
  induction es with
  | nil => exact ⟨[], [], rfl, List.forall_mem_nil _, rfl, by simp [isPlain], rfl, rfl⟩
  | cons e es ih =>
    obtain ⟨hFits, hOthers⟩ := areLiteral_cons.mp hLiteral
    have hEscape : (∃ t, e.text = '\\' :: t) → ∃ run rest, IsRun quote after (e :: es) run rest := by
      rintro ⟨t, hText⟩
      refine ⟨[], e :: es, rfl, List.forall_mem_nil _, hLiteral, ?_, rfl, rfl⟩
      simp [hText, isPlain]
    cases e with
    | raw c =>
      obtain ⟨run, rest, hRun⟩ := ih hOthers
      refine ⟨c :: run, rest, ?_, List.forall_mem_cons.mpr ⟨isPlain_of_fits hFits, hRun.isPlain⟩,
        hRun.areLiteral, hRun.stops, ?_, ?_⟩
      · rw [body_cons, hRun.body_eq]
        rfl
      · rw [unitsRead_cons fun _ _ => rfl, hRun.units]
        simp [unitsAlone, units, Literal.codePoints]
      · rw [List.length_cons, List.length_cons, ← hRun.length_eq, Nat.add_assoc]
    | single c => exact hEscape ⟨_, rfl⟩
    | byte digits => exact hEscape ⟨_, rfl⟩
    | short digits => exact hEscape ⟨_, rfl⟩
    | braced digits => exact hEscape ⟨_, rfl⟩
    | octal digits => exact hEscape ⟨_, rfl⟩
    | continuation lineEnd => exact hEscape ⟨_, rfl⟩

/-- A run of raw characters is one piece. -/
theorem hasPiece_raw {c : Char} (hLiteral : StringElement.areLiteral quote (raw c :: es) = true) :
    HasPiece quote after (raw c :: es) := by
  obtain ⟨run, rest, hRun⟩ := exists_run hLiteral after
  have hSpan : spanWhile (isPlain quote) (run ++ (body rest ++ quote :: after)) =
      (run, body rest ++ quote :: after) := by
    obtain ⟨d, t, hTail, -, -⟩ := exists_follows hRun.areLiteral after
    have hStop : ¬ isPlain quote d = true := by
      rw [hRun.stops d (by rw [hTail]; rfl)]
      decide
    rw [spanWhile, List.takeWhile_append_of_pos hRun.isPlain, List.dropWhile_append_of_pos hRun.isPlain,
      hTail, List.takeWhile_cons_of_neg hStop, List.dropWhile_cons_of_neg hStop, List.append_nil]
  have hSome : run ≠ [] := by
    rintro rfl
    have hPlain := isPlain_of_fits (areLiteral_cons.mp hLiteral).1
    have hBody : body rest = c :: body es := hRun.body_eq.symm
    rw [hRun.stops c (by rw [hBody]; rfl)] at hPlain
    cases hPlain
  have hPositive := List.length_pos_of_ne_nil hSome
  refine ⟨.other "string_fragment", run, rest, _, ?_, ?_, hRun.areLiteral, rfl, hRun.units⟩
  · rw [hRun.body_eq, List.append_assoc, piece?, hSpan, nonEmpty?,
      if_neg (by simpa using hSome)]
  · rw [← hRun.length_eq]
    omega

/-- **The next piece of a literal**, if it has elements. -/
theorem exists_piece (hQuote : quote = '"' ∨ quote = '\'')
    (hLiteral : StringElement.areLiteral quote (e :: es) = true) (after : Text) :
    HasPiece quote after (e :: es) := by
  have hBreak : isLineBreak quote = false := by
    rcases hQuote with rfl | rfl <;> decide
  have hDigit : isOctalDigit quote = false := by
    rcases hQuote with rfl | rfl <;> decide
  obtain ⟨hFits, hOthers⟩ := areLiteral_cons.mp hLiteral
  cases e with
  | raw c => exact hasPiece_raw hLiteral
  | single c => exact hasPiece_single hBreak hFits hOthers
  | byte digits =>
    simp only [fits, Bool.and_eq_true, beq_iff_eq] at hFits
    exact hasPiece_byte hFits.1 hFits.2 hOthers
  | short digits =>
    simp only [fits, Bool.and_eq_true, beq_iff_eq] at hFits
    exact hasPiece_short hFits.1 hFits.2 hOthers
  | braced digits =>
    simp only [fits, Bool.and_eq_true, Bool.not_eq_true', List.isEmpty_eq_false_iff,
      decide_eq_true_eq] at hFits
    exact hasPiece_braced hFits.1.1 hFits.1.2 hFits.2 hOthers
  | octal digits => exact hasPiece_octal hDigit hFits hOthers
  | continuation lineEnd => exact hasPiece_continuation hBreak hFits hOthers

theorem text_ne_nil (e : StringElement) : e.text ≠ [] := by
  cases e <;> exact List.cons_ne_nil _ _

/-- A literal has at least as many characters as elements. -/
theorem length_le_body (es : List StringElement) : es.length ≤ (body es).length := by
  induction es with
  | nil => exact le_rfl
  | cons e es ih =>
    have hText := List.length_pos_of_ne_nil e.text_ne_nil
    rw [body_cons, List.length_append, List.length_cons]
    omega

end StringElement

-- ---------------------------------------------------------------------------
-- The whole literal
-- ---------------------------------------------------------------------------

namespace Grammar

open StringElement ClassTags.Grammar.Parser

variable {source after : Text} {c : Cursor} {s : Split} {quote : Char} {es : List StringElement}

/-- A cursor stands somewhere in a source text. -/
def Cursor.LiesIn (source : Text) (c : Cursor) : Prop :=
  ∃ before, source = before ++ c.rest ∧ c.offset = Text.byteLength before

/-- A cursor lies in the text after a token. -/
theorem Cursor.LiesIn.passToken (h : c.LiesIn source) (hSplit : c.rest = s.1 ++ s.2) :
    (c.passToken s).LiesIn source := by
  obtain ⟨before, hSource, hOffset⟩ := h
  refine ⟨before ++ s.1, ?_, ?_⟩
  · rw [hSource, hSplit, List.append_assoc]
    rfl
  · rw [Text.byteLength_append, ← hOffset]
    rfl

/-- What a token covers is its text. -/
theorem Cursor.LiesIn.slice_passToken (h : c.LiesIn source) (hSplit : c.rest = s.1 ++ s.2) :
    source.slice c.offset (c.passToken s).offset = s.1 := by
  obtain ⟨before, hSource, hOffset⟩ := h
  have hStop : (c.passToken s).offset = Text.byteLength before + Text.byteLength s.1 := by
    rw [← hOffset]
    rfl
  rw [hStop, hOffset, hSource, hSplit, Text.slice_append]

/-- A piece of a string is read as a piece of the text. -/
theorem stringPiece_eq (quote : Char) (c : Cursor) :
    stringPiece quote c =
      match piece? quote c.rest with
      | some (kind, s) => literalPiece kind s c
      | none => .ok (none, c) := by
  have hPlain : (fun d : Char => d != quote && d != '\\' && d != '\r' && d != '\n') = isPlain quote :=
    rfl
  unfold stringPiece piece?
  dsimp only
  rw [hPlain]
  cases nonEmpty? (spanWhile (isPlain quote) c.rest) with
  | some s => rfl
  | none =>
    cases escape? c.rest with
    | some s => rfl
    | none => rfl

/-- A piece is split off from the text. -/
theorem splits_piece {kind : SyntaxKind} {t : Text} (h : piece? quote t = some (kind, s)) :
    t = s.1 ++ s.2 := by
  unfold piece? at h
  split at h
  case h_1 s' hPlain =>
    obtain ⟨-, rfl⟩ := Prod.mk.inj (Option.some.inj h)
    exact splits_nonEmpty (spanWhile_append (isPlain quote)) t _ _ hPlain
  case h_2 =>
    obtain ⟨s', hEscape, hEq⟩ := Option.map_eq_some_iff.mp h
    obtain ⟨-, rfl⟩ := Prod.mk.inj hEq
    exact splits_escape t _ _ hEscape

/-- At the quote there is no further piece. -/
theorem piece?_quote (hQuote : quote = '"' ∨ quote = '\'') (after : Text) :
    piece? quote (quote :: after) = none := by
  have hPlain : isPlain quote quote = false := by simp [isPlain]
  have hEscape : escape? (quote :: after) = none := by
    rcases hQuote with rfl | rfl <;> rfl
  rw [piece?, spanWhile, List.takeWhile_cons_of_neg (by simp [hPlain]), hEscape]
  rfl

/-- A repetition ends with a step that gives nothing. -/
theorem manyWithin_none {α : Type} {step : Parser (Option α)} {c' : Cursor} (fuel : Nat)
    (h : step c = .ok (none, c')) : manyWithin step (fuel + 1) c = .ok ([], c') :=
  bind_eq_ok.mpr ⟨none, c', h, rfl⟩

/-- A repetition goes on after a step that gives something. -/
theorem manyWithin_some {α : Type} {step : Parser (Option α)} {c₁ c' : Cursor} {fuel : Nat} {a : α}
    {as : List α} (h : step c = .ok (some a, c₁)) (hRest : manyWithin step fuel c₁ = .ok (as, c')) :
    manyWithin step (fuel + 1) c = .ok (a :: as, c') :=
  bind_eq_ok.mpr ⟨some a, c₁, h, bind_eq_ok.mpr ⟨as, c', hRest, rfl⟩⟩

/-- The pieces of a literal, and what they contribute together. -/
theorem exists_pieces (hQuote : quote = '"' ∨ quote = '\'') (hLiteral : areLiteral quote es = true)
    (hIn : c.LiesIn source) (hRest : c.rest = body es ++ quote :: after) {fuel : Nat}
    (hFuel : es.length < fuel) :
    ∃ ts c' values, manyWithin (stringPiece quote) fuel c = .ok (ts, c') ∧ c'.LiesIn source ∧
      c'.rest = quote :: after ∧ SyntaxTree.literalPieces ts = ts ∧
      SyntaxTree.PieceValues source ts values ∧
      values.flatten.flatMap Text.units = unitsRead es := by
  induction fuel generalizing es c with
  | zero => exact absurd hFuel (Nat.not_lt_zero _)
  | succ fuel ih =>
    cases es with
    | nil =>
      have hNone : stringPiece quote c = .ok (none, c) := by
        rw [stringPiece_eq, hRest, body_nil, List.nil_append, piece?_quote hQuote]
      exact ⟨[], c, [], manyWithin_none fuel hNone, hIn, hRest, rfl, .nil, rfl⟩
    | cons e es =>
      -- the next piece may take several elements, and leaves fewer
      obtain ⟨kind, lexeme, rest, codes, hPiece⟩ := exists_piece hQuote hLiteral after
      let s : Split := (lexeme, body rest ++ quote :: after)
      have hRead : piece? quote c.rest = some (kind, s) := hRest ▸ hPiece.read
      have hSplit : c.rest = s.1 ++ s.2 := splits_piece hRead
      have hShorter : rest.length < fuel := by
        have := hPiece.shorter
        omega
      obtain ⟨ts, c', values, hMany, hLies, hEnd, hNamed, hValues, hUnits⟩ :=
        ih hPiece.areLiteral (hIn.passToken hSplit) rfl hShorter
      let t : SyntaxTree := .node { kind, start := c.offset, stop := (c.passToken s).offset } []
      have hStep : stringPiece quote c = .ok (some t, c.passToken s) := by
        rw [stringPiece_eq, hRead]
        rfl
      -- the piece spans the text from which its value is computed
      have hValue : SyntaxTree.pieceValue source t = .ok codes := by
        have hText : t.rawText source = lexeme := hIn.slice_passToken hSplit
        rw [← hPiece.value, SyntaxTree.pieceValue, hText]
        rfl
      refine ⟨t :: ts, c', codes :: values, manyWithin_some hStep hMany, hLies, hEnd, ?_,
        .cons hValue hValues, ?_⟩
      · rw [SyntaxTree.literalPieces, List.filter_cons_of_pos rfl]
        exact congrArg _ hNamed
      · rw [List.flatten_cons, List.flatMap_append, hUnits, hPiece.units]

/-- Nothing is passed over in front of a quote. -/
theorem passTrivia_quote (hQuote : quote = '"' ∨ quote = '\'') (markup : Bool)
    (hRest : c.rest = quote :: after) : c.passTrivia markup = c := by
  have hSpace : c.passSpace = c := by
    have hSpan : spanWhile isSpace c.rest = ([], c.rest) := by
      rw [hRest]
      rcases hQuote with rfl | rfl <;> rfl
    rw [Cursor.passSpace, hSpan]
    rfl
  have hComment : c.passComment? markup = none := by
    rw [Cursor.passComment?, hRest]
    rcases hQuote with rfl | rfl <;> cases markup <;> rfl
  unfold Cursor.passTrivia
  cases c.rest.length with
  | zero => exact hSpace
  | succ fuel => rw [Cursor.passTriviaWithin, hSpace, hComment]

/-- The closing quote ends the literal where it stands. -/
theorem closingQuote_eq (hQuote : quote = '"' ∨ quote = '\'') (start : Nat)
    (hRest : c.rest = quote :: after) :
    closingQuote start quote c = .ok ((), c.passToken ([quote], after)) := by
  unfold closingQuote
  dsimp only
  rw [passTrivia_quote hQuote false hRest]
  split
  case h_1 hNone =>
    rw [hRest] at hNone
    cases hNone
  case h_2 d rest hCons =>
    obtain ⟨rfl, rfl⟩ := List.cons.inj (hRest.symm.trans hCons)
    rw [if_pos (by simp)]

/-- **The value of a string literal**, wherever it stands in a source text. The literal is taken as
a whole, and its units are those that are read from its elements, with U+FFFD for each half of a
pair that stands alone. If its elements show none of the differences, they are those of the
language. -/
theorem stringLiteral_value (hQuote : quote = '"' ∨ quote = '\'')
    (hLiteral : areLiteral quote es = true) (hIn : c.LiesIn source)
    (hRest : c.rest = quote :: (body es ++ quote :: after)) :
    ∃ t c' value, stringLiteral c = .ok (t, c') ∧ c'.rest = after ∧
      t.rawText source = quote :: (body es ++ [quote]) ∧
      SyntaxTree.expression source t = pure (.string (t.place source) value) ∧
      value.codeUnits = Text.mended (unitsRead es) ∧
      (Faithful es → value.codeUnits = Text.mended (es.flatMap units)) := by
  have hHere : c.passTrivia true = c := passTrivia_quote hQuote true hRest
  have hToken : Token.ofText c.rest = .quote quote := by
    rw [hRest]
    rcases hQuote with rfl | rfl <;> rfl
  -- behind the first quote
  let c₁ := c.passToken ([quote], body es ++ quote :: after)
  have hIn₁ : c₁.LiesIn source := hIn.passToken hRest
  have hFuel : es.length < c₁.rest.length + 1 := by
    have hBody := length_le_body es
    have hLength : c₁.rest.length = (body es).length + (after.length + 1) := List.length_append
    omega
  obtain ⟨ts, c₂, values, hMany, hIn₂, hRest₂, hPieces, hValues, hUnits⟩ :=
    exists_pieces hQuote hLiteral hIn₁ rfl hFuel
  -- behind the second one
  let c' := c₂.passToken ([quote], after)
  have hIn' : c'.LiesIn source := hIn₂.passToken hRest₂
  let t : SyntaxTree := .node { kind := .string, start := c.offset, stop := c'.offset } ts
  obtain ⟨value, hValue, hOwn⟩ := SyntaxTree.exists_stringValue (hPieces.symm ▸ hValues)
  rw [hUnits] at hOwn
  refine ⟨t, c', value, ?_, rfl, ?_, ?_, hOwn, fun h => h.unitsRead_eq ▸ hOwn⟩
  · refine bind_eq_ok.mpr ⟨c.offset, c, by rw [mark, hHere], bind_eq_ok.mpr ⟨.quote quote, c, ?_, ?_⟩⟩
    · rw [operand, hHere, hToken]
    · refine bind_eq_ok.mpr ⟨[quote], c₁, ?_, bind_eq_ok.mpr ⟨ts, c₂, hMany, bind_eq_ok.mpr
        ⟨(), c', closingQuote_eq hQuote _ hRest₂, rfl⟩⟩⟩
      unfold lexeme
      dsimp only
      rw [hHere, hRest]
      rfl
  · obtain ⟨before, hSource, hOffset⟩ := hIn
    obtain ⟨before', hSource', hOffset'⟩ := hIn'
    have hBefore : before' = before ++ (quote :: (body es ++ [quote])) := by
      have hWhole : before' ++ after = before ++ c.rest := hSource'.symm.trans hSource
      refine (List.append_left_inj after).mp ?_
      rw [hWhole, hRest]
      simp
    show source.slice c.offset c'.offset = _
    rw [hOffset, hOffset', hBefore, Text.byteLength_append, hSource, hRest]
    have hSlice := Text.slice_append before (quote :: (body es ++ [quote])) after
    simpa using hSlice
  · show (do
      let value ← Reading.ofLiteral (SyntaxTree.stringValue source ts)
      pure (.string (t.place source) value) : Reading Node) = _
    rw [hValue]
    rfl

/-- A pair of halves on two lines, an octal escape before a digit that is not octal, and a line
separator behind a question mark. -/
def patchwork : List StringElement :=
  [.short ['D', '8', '3', 'D'], .continuation ['\r', '\n'], .short ['d', 'e', '0', '0'],
    .octal ['4', '0'], .raw '8', .single '?', .raw '\u2028']

/-- A literal in which every kind of element occurs. -/
theorem stringLiteral_value_of_patchwork :
    areLiteral '\'' patchwork = true ∧
    ∃ t c' value,
      stringLiteral { rest := '\'' :: (body patchwork ++ '\'' :: [';']) } = .ok (t, c') ∧ c'.rest = [';'] ∧
      SyntaxTree.expression ('\'' :: (body patchwork ++ '\'' :: [';'])) t =
        pure (.string (t.place ('\'' :: (body patchwork ++ '\'' :: [';']))) value) ∧
      value.codeUnits = [0xD83D, 0xDE00, 0x20, 0x38, 0x3F, 0x2028] := by
  have hLiteral : areLiteral '\'' patchwork = true := by decide
  have hFaithful : Faithful patchwork := ⟨by decide, by decide⟩
  obtain ⟨t, c', value, hRead, hRest, -, hNode, -, hUnits⟩ :=
    stringLiteral_value (c := { rest := '\'' :: (body patchwork ++ '\'' :: [';']) }) (.inr rfl) hLiteral
      ⟨[], rfl, rfl⟩ rfl
  exact ⟨hLiteral, t, c', value, hRead, hRest, hNode, hUnits hFaithful⟩

/-- The names that the string literals at the top of a source text would give to entries: their
values. -/
def topValues (source : Text) : Except SourceFailure (List Text) :=
  (Program.ofSource [] source).result.map fun p => p.body.flatMap fun n => n.children.map Node.keyName

/-- Where the two readings differ: a third octal digit, a separator behind a backslash, and one
behind a backslash and a carriage return. -/
theorem topValues_of_unfaithful :
    (areLiteral '"' [.octal ['4', '0'], .raw '0'] = true ∧
      [StringElement.octal ['4', '0'], .raw '0'].flatMap units = Text.codeUnits [' ', '0'] ∧
      topValues ('"' :: (body [.octal ['4', '0'], .raw '0'] ++ ['"'])) = .ok [['Ā']]) ∧
    (areLiteral '"' [.raw 'a', .continuation ['\u2028'], .raw 'b'] = true ∧
      [StringElement.raw 'a', .continuation ['\u2028'], .raw 'b'].flatMap units =
        Text.codeUnits ['a', 'b'] ∧
      topValues ('"' :: (body [.raw 'a', .continuation ['\u2028'], .raw 'b'] ++ ['"'])) =
        .ok [['a', '\u2028', 'b']]) ∧
    areLiteral '"' [.continuation ['\r'], .raw '\u2028'] = true ∧
      [StringElement.continuation ['\r'], .raw '\u2028'].flatMap units = Text.codeUnits ['\u2028'] ∧
      topValues ('"' :: (body [.continuation ['\r'], .raw '\u2028'] ++ ['"'])) = .ok [[]] := by
  decide +kernel

end Grammar

end ClassTags

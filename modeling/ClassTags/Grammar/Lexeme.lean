import ClassTags.Text.Basic

/-!
# Lexemes

The smallest pieces of JavaScript source text. A reader of a lexeme splits a text into the lexeme at
its head and the rest; it gives nothing if the text does not begin with such a lexeme. Every reader
takes as much as it can.

Main definitions:

* `isSpace`, `isWordChar` — white space between lexemes, and the characters of words;
* `word?`, `privateName?`, `numeral?`, `punctuator?`, `comment?`, `htmlComment?` — lexemes that stand
  alone;
* `escape?`, `regexBody?` — lexemes inside string, template and regular expression literals.
-/

namespace ClassTags.Grammar

/-- A lexeme and the text after it. -/
abbrev Split := Text × Text

/-- White space between lexemes: the ASCII kind, the Unicode space separators, the line and
paragraph separators, and the zero-width characters that count as space. -/
def isSpace (c : Char) : Bool :=
  let n := c.toNat
  (0x09 ≤ n && n ≤ 0x0D) || n == 0x20 || n == 0xA0 || n == 0x1680 || (0x2000 ≤ n && n ≤ 0x200B) ||
    n == 0x2028 || n == 0x2029 || n == 0x202F || n == 0x205F || n == 0x2060 || n == 0x3000 ||
    n == 0xFEFF

/-- The characters at which a line ends, the carriage return apart. -/
def isLineBreak (c : Char) : Bool := c == '\n' || c.toNat == 0x2028 || c.toNat == 0x2029

/-- The characters that separate words and are no white space. -/
def separators : Text := ":;`\"'@#.,|^&<=>+-*/\\%?!~()[]\x7b\x7d"

/-- The characters of words. -/
def isWordChar (c : Char) : Bool := 0x20 ≤ c.toNat && !isSpace c && !separators.contains c

/-- Hexadecimal digits. -/
def isHexDigit (c : Char) : Bool :=
  c.isDigit || ('a' ≤ c && c ≤ 'f') || ('A' ≤ c && c ≤ 'F')

/-- Octal digits. -/
def isOctalDigit (c : Char) : Bool := '0' ≤ c && c ≤ '7'

/-- Takes pieces from the head of a text, at most `fuel` of them, as long as `piece?` finds one. -/
def repeated (piece? : Text → Option Split) : (fuel : Nat) → Text → Split
  | 0, t => ([], t)
  | fuel + 1, t =>
    match piece? t with
    | none => ([], t)
    | some (piece, rest) =>
      let (pieces, rest) := repeated piece? fuel rest
      (piece ++ pieces, rest)

/-- Takes pieces from the head of a text as long as `piece?` finds one. -/
def pieces (piece? : Text → Option Split) (t : Text) : Split := repeated piece? t.length t

/-- The split of a text after the characters with a property. -/
def spanWhile (p : Char → Bool) (t : Text) : Split := (t.takeWhile p, t.dropWhile p)

/-- A split, unless nothing was taken. -/
def nonEmpty? (s : Split) : Option Split := if s.1.isEmpty then none else some s

/-! ## Words -/

/-- The escape of a character by its code point: `u` and four hexadecimal digits, or braces around
any number of them. The backslash stands before it. -/
def unicodeEscape? : Text → Option Split
  | 'u' :: '{' :: t =>
    match spanWhile isHexDigit t with
    | (d :: ds, '}' :: rest) => some ('u' :: '{' :: d :: ds ++ ['}'], rest)
    | _ => none
  | 'u' :: a :: b :: c :: d :: rest =>
    if isHexDigit a && isHexDigit b && isHexDigit c && isHexDigit d then some (['u', a, b, c, d], rest)
    else none
  | _ => none

/-- One character of a word, which may be escaped. -/
def wordPiece? : Text → Option Split
  | '\\' :: t => (unicodeEscape? t).map fun (e, rest) => ('\\' :: e, rest)
  | c :: rest => if isWordChar c then some ([c], rest) else none
  | [] => none

/-- A word: a keyword or a name. It does not begin with a digit. -/
def word? (t : Text) : Option Split :=
  match t with
  | [] => none
  | c :: _ => if c.isDigit then none else nonEmpty? (pieces wordPiece? t)

/-- A private name: `#` and a word. -/
def privateName? : Text → Option Split
  | '#' :: t => (word? t).map fun (w, rest) => ('#' :: w, rest)
  | _ => none

/-! ## Numerals -/

/-- A digit after an optional underscore. -/
def digitPiece? (isDigit : Char → Bool) : Text → Option Split
  | '_' :: c :: rest => if isDigit c then some (['_', c], rest) else none
  | c :: rest => if isDigit c then some ([c], rest) else none
  | [] => none

/-- Digits with single underscores between them. -/
def digitRun? (isDigit : Char → Bool) : Text → Option Split
  | [] => none
  | c :: t =>
    if isDigit c then
      let (ds, rest) := pieces (digitPiece? isDigit) t
      some (c :: ds, rest)
    else none

/-- The suffix of big integers, if it is there. -/
def bigSuffix : Text → Split
  | 'n' :: rest => (['n'], rest)
  | t => ([], t)

/-- Digits after a radix mark, with the suffix of big integers if it is there. -/
def markedNumeral? (mark : Text) (isDigit : Char → Bool) (t : Text) : Option Split :=
  (digitRun? isDigit t).map fun (ds, rest) =>
    let (suffix, rest) := bigSuffix rest
    (mark ++ ds ++ suffix, rest)

/-- An exponent: its mark, an optional sign and digits. -/
def exponent? : Text → Option Split
  | mark :: t =>
    if mark == 'e' || mark == 'E' then
      match t with
      | sign :: ds =>
        if sign == '+' || sign == '-' then
          (digitRun? Char.isDigit ds).map fun (ds, rest) => (mark :: sign :: ds, rest)
        else (digitRun? Char.isDigit t).map fun (ds, rest) => (mark :: ds, rest)
      | [] => none
    else none
  | [] => none

/-- What an optional reader takes. -/
def optional (piece? : Text → Option Split) (t : Text) : Split := (piece? t).getD ([], t)

/-- Whether digits can stand before a fraction or an exponent: zero alone, or digits of which at
most the first is a leading zero. -/
def takesFraction : Text → Bool
  | ['0'] => true
  | '0' :: c :: _ => c.isDigit && c != '0'
  | _ => true

/-- A decimal numeral that begins with a digit. -/
def decimalNumeral? (t : Text) : Option Split :=
  (digitRun? Char.isDigit t).map fun (whole, rest) =>
    match rest with
    | 'n' :: rest => (whole ++ ['n'], rest)
    | '.' :: after =>
      if takesFraction whole then
        let (fraction, after) := optional (digitRun? Char.isDigit) after
        let (exponent, after) := optional exponent? after
        (whole ++ '.' :: fraction ++ exponent, after)
      else (whole, rest)
    | _ =>
      if takesFraction whole then
        let (exponent, rest) := optional exponent? rest
        (whole ++ exponent, rest)
      else (whole, rest)

/-- A numeral. -/
def numeral? (t : Text) : Option Split :=
  match t with
  | '.' :: after =>
    (digitRun? Char.isDigit after).map fun (fraction, rest) =>
      let (exponent, rest) := optional exponent? rest
      ('.' :: fraction ++ exponent, rest)
  | '0' :: mark :: after =>
    let marked :=
      if mark == 'x' || mark == 'X' then markedNumeral? ['0', mark] isHexDigit after
      else if mark == 'o' || mark == 'O' then markedNumeral? ['0', mark] isOctalDigit after
      else if mark == 'b' || mark == 'B' then
        markedNumeral? ['0', mark] (fun c => c == '0' || c == '1') after
      else none
    marked.or (decimalNumeral? t)
  | _ => decimalNumeral? t

/-! ## Punctuators -/

/-- The punctuators, each before those that it begins with. -/
def punctuators : List Text := List.map String.toList [
  ">>>=", "...", "===", "!==", "**=", "<<=", ">>=", ">>>", "&&=", "||=", "??=", "=>", "==", "!=",
  "<=", ">=", "&&", "||", "??", "?.", "++", "--", "+=", "-=", "*=", "/=", "%=", "&=", "|=", "^=",
  "<<", ">>", "**", "\x7b", "\x7d", "(", ")", "[", "]", ";", ",", "<", ">", "+", "-", "*", "/", "%",
  "&", "|", "^", "!", "~", "?", ":", "=", "."]

/-- A punctuator. A question mark before a decimal fraction does not belong to the point. -/
def punctuator? (t : Text) : Option Split :=
  match t with
  | '?' :: '.' :: c :: rest =>
    if c.isDigit then some (['?'], '.' :: c :: rest) else some (['?', '.'], c :: rest)
  | _ => (punctuators.find? (·.isPrefixOf t)).map fun p => (p, t.drop p.length)

/-! ## Comments -/

/-- The rest of a comment between `/*` and `*/`. -/
def blockComment? : Text → Option Split
  | [] => none
  | '*' :: '/' :: rest => some (['*', '/'], rest)
  | c :: t => (blockComment? t).map fun (body, rest) => (c :: body, rest)

/-- A comment: to the end of the line, or up to `*/`. -/
def comment? : Text → Option Split
  | '/' :: '/' :: t =>
    let (body, rest) := spanWhile (fun c => !isLineBreak c && c != '\r') t
    some ('/' :: '/' :: body, rest)
  | '/' :: '*' :: t => (blockComment? t).map fun (body, rest) => ('/' :: '*' :: body, rest)
  | _ => none

/-- A comment in the form that markup uses: `<!--` or `-->` to the end of the line. -/
def htmlComment? (t : Text) : Option Split :=
  match t with
  | '<' :: '!' :: '-' :: '-' :: _ => some (spanWhile (!isLineBreak ·) t)
  | '-' :: '-' :: '>' :: _ => some (spanWhile (!isLineBreak ·) t)
  | _ => none

/-! ## Pieces of literals -/

/-- An escape sequence of a string or a template, with its backslash. -/
def escape? : Text → Option Split
  | '\\' :: 'x' :: a :: b :: rest =>
    if isHexDigit a && isHexDigit b then some (['\\', 'x', a, b], rest) else none
  | '\\' :: c :: rest =>
    if c == 'x' then none
    else if c == 'u' then (unicodeEscape? (c :: rest)).map fun (e, rest) => ('\\' :: e, rest)
    else if isOctalDigit c then
      let (more, _) := spanWhile isOctalDigit (rest.take 2)
      some ('\\' :: c :: more, rest.drop more.length)
    else
      match rest with
      | b :: rest' =>
        if (c == '\r' || c == '?') && isLineBreak b then some (['\\', c, b], rest')
        else some (['\\', c], rest)
      | [] => some (['\\', c], rest)
  | _ => none

/-- An escaped character of a regular expression. -/
def regexEscape? : Text → Option Split
  | '\\' :: c :: rest => if c == '\n' then none else some (['\\', c], rest)
  | _ => none

/-- One character between the brackets of a character class. -/
def classPiece? (t : Text) : Option Split :=
  match t with
  | '\\' :: _ => regexEscape? t
  | c :: rest => if c == ']' || c == '\n' then none else some ([c], rest)
  | [] => none

/-- One piece of a regular expression: a character class or a character. -/
def regexPiece? (t : Text) : Option Split :=
  match t with
  | '\\' :: _ => regexEscape? t
  | '[' :: after =>
    match pieces classPiece? after with
    | (body, ']' :: rest) => some ('[' :: body ++ [']'], rest)
    | _ => none
  | c :: rest => if c == '/' || c == '\n' then none else some ([c], rest)
  | [] => none

/-- The part of a regular expression between its slashes. -/
def regexBody? (t : Text) : Option Split := nonEmpty? (pieces regexPiece? t)

end ClassTags.Grammar

/-!
# Text

Text is a list of characters, so that every reader and writer of the library recurses on it
directly. A string literal stands for its characters wherever a text is expected.

The module also fixes which characters count as blank when text is trimmed or put on one line. The
reader of source text has a different set of its own (`ClassTags.Grammar.isSpace`).

Main definitions:

* `Text.strip` — without the blanks at both ends;
* `Text.collapse` — every run of blanks becomes one space;
* `Text.listItems` — the non-empty, stripped pieces between separators;
* `Text.decimal` — the decimal numeral of a natural number.
-/

namespace ClassTags

/-- A text is the list of its characters. -/
abbrev Text := List Char

instance : Coe String Text := ⟨String.toList⟩

/-- The blanks: the ASCII spaces and line breaks, the four information separators, next line,
no-break space, and the space, line and paragraph separators of Unicode. -/
def isBlank (c : Char) : Bool :=
  let n := c.toNat
  (0x09 ≤ n && n ≤ 0x0D) || (0x1C ≤ n && n ≤ 0x20) || n == 0x85 || n == 0xA0 || n == 0x1680 ||
    (0x2000 ≤ n && n ≤ 0x200A) || n == 0x2028 || n == 0x2029 || n == 0x202F || n == 0x205F ||
    n == 0x3000

namespace Text

/-- A text without its leading blanks. -/
def stripStart (t : Text) : Text := t.dropWhile isBlank

/-- A text without its trailing blanks. -/
def stripEnd (t : Text) : Text := (t.reverse.dropWhile isBlank).reverse

/-- A text without the blanks at its two ends. -/
def strip (t : Text) : Text := stripEnd (stripStart t)

/-- `collapse` in the middle of a text: `inRun` says that the last character was a blank, for which
a space has been written. -/
def collapseFrom (inRun : Bool) : Text → Text
  | [] => []
  | c :: cs =>
    if isBlank c then
      if inRun then collapseFrom true cs else ' ' :: collapseFrom true cs
    else c :: collapseFrom false cs

/-- Every maximal run of blanks becomes one space. -/
def collapse (t : Text) : Text := collapseFrom false t

/-- The pieces between the separators, stripped, the empty ones left out. -/
def listItems (separator : Char) (t : Text) : List Text :=
  ((t.splitOn separator).map strip).filter (fun piece => !piece.isEmpty)

/-- The pieces in order, with `separator` between two neighbours. -/
def joinWith (separator : Text) (pieces : List Text) : Text :=
  separator.intercalate pieces

/-- The decimal numeral of a number, without leading zeros. -/
def decimal (n : Nat) : Text := Nat.toDigits 10 n

/-- The number of bytes of a text in UTF-8. -/
def byteLength (t : Text) : Nat := t.foldr (fun c n => c.utf8Size + n) 0

/-- What remains after the characters that begin within the first `n` bytes. -/
def dropBytes : Nat → Text → Text
  | _, [] => []
  | 0, t => t
  | n + 1, c :: cs => dropBytes (n + 1 - c.utf8Size) cs

/-- The characters that begin within the first `n` bytes. -/
def takeBytes : Nat → Text → Text
  | _, [] => []
  | 0, _ => []
  | n + 1, c :: cs => c :: takeBytes (n + 1 - c.utf8Size) cs

/-- The characters from byte `start` up to byte `stop`. -/
def slice (t : Text) (start stop : Nat) : Text :=
  takeBytes (stop - start) (dropBytes start t)

/-- The number of the line on which byte `offset` stands: lines end at line feeds and are counted
from one. -/
def lineAt (t : Text) (offset : Nat) : Nat :=
  (takeBytes offset t).count '\n' + 1

end Text

end ClassTags

import ClassTags.Text.Basic
import ClassTags.Text.Digit

/-!
# Integer numerals

Reads integers in the spellings a literal may use: decimal without leading zeros, or with one of the
marks `0x`, `0o` and `0b` (in either case) in front of the digits. Blanks may stand around the
numeral, one sign in front of it and single underscores between its digits.

Numerals of more than `digitLimit` decimal digits are not read and not written.
-/

namespace ClassTags.Number

/-- The longest decimal numeral that is read or written. -/
def digitLimit : Nat := 4300

/-- A character of a numeral in its ASCII spelling: digits of other scripts become digits, blanks
beyond ASCII become spaces. -/
def plainChar (c : Char) : Char :=
  if c.toNat < 0x7F then c else if isBlank c then ' ' else Text.asciiDigit c

/-- The blanks that may stand around a numeral in its ASCII spelling. -/
def isPadding (c : Char) : Bool := c == ' ' || ('\t' ≤ c && c ≤ '\r')

/-- The numeral in its ASCII spelling, without the blanks around it. -/
def plain (t : Text) : Text :=
  (((t.map plainChar).dropWhile isPadding).reverse.dropWhile isPadding).reverse

/-- The value of a digit in a base of at most 36. -/
def digit? (base : Nat) (c : Char) : Option Nat :=
  let value? : Option Nat :=
    if '0' ≤ c ∧ c ≤ '9' then some (c.toNat - 0x30)
    else if 'a' ≤ c ∧ c ≤ 'z' then some (c.toNat - 0x61 + 10)
    else if 'A' ≤ c ∧ c ≤ 'Z' then some (c.toNat - 0x41 + 10)
    else none
  value?.filter (· < base)

/-- Reads further digits after those that make `value`. -/
def continueDigits? (base : Nat) : (value : Nat) → Text → Option Nat
  | value, [] => some value
  | value, '_' :: c :: cs => (digit? base c).bind fun d => continueDigits? base (value * base + d) cs
  | value, c :: cs => (digit? base c).bind fun d => continueDigits? base (value * base + d) cs

/-- Reads a non-empty run of digits. -/
def digits? (base : Nat) : Text → Option Nat
  | [] => none
  | c :: cs => (digit? base c).bind fun d => continueDigits? base d cs

/-- Reads the digits after a radix mark, which an underscore may set off. -/
def markedDigits? (base : Nat) : Text → Option Nat
  | '_' :: cs => digits? base cs
  | cs => digits? base cs

/-- The base that a radix mark stands for. -/
def radix? (mark : Char) : Option Nat :=
  if mark = 'x' ∨ mark = 'X' then some 16
  else if mark = 'o' ∨ mark = 'O' then some 8
  else if mark = 'b' ∨ mark = 'B' then some 2
  else none

/-- Reads an unsigned numeral whose base shows in its spelling. A numeral that begins with a zero
and has no radix mark can only be zero. -/
def natural? : Text → Option Nat
  | '0' :: mark :: cs =>
    match radix? mark with
    | some base => markedDigits? base cs
    | none => (digits? 10 ('0' :: mark :: cs)).filter (· == 0)
  | cs => if cs.length ≤ digitLimit then digits? 10 cs else none

/-- Reads an unsigned hexadecimal numeral, with or without its mark. -/
def hexNatural? : Text → Option Nat
  | '0' :: 'x' :: cs => markedDigits? 16 cs
  | '0' :: 'X' :: cs => markedDigits? 16 cs
  | cs => digits? 16 cs

/-- Reads a sign and then what `magnitude?` reads. -/
def signed? (magnitude? : Text → Option Nat) : Text → Option Int
  | '-' :: cs => (magnitude? cs).map fun n => -(n : Int)
  | '+' :: cs => (magnitude? cs).map Int.ofNat
  | cs => (magnitude? cs).map Int.ofNat

/-- The integer that a text spells, if it spells one. -/
def integer? (t : Text) : Option Int := signed? natural? (plain t)

/-- The integer that a text spells in hexadecimal. -/
def hexInteger? (t : Text) : Option Int := signed? hexNatural? (plain t)

/-- The decimal numeral of an integer. -/
def integerText : Int → Text
  | .ofNat n => Text.decimal n
  | .negSucc n => '-' :: Text.decimal (n + 1)

/-- The decimal numeral of an integer, if it is not too long. -/
def limitedText? (i : Int) : Option Text :=
  if (Text.decimal i.natAbs).length ≤ digitLimit then some (integerText i) else none

end ClassTags.Number

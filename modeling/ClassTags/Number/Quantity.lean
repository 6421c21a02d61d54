import ClassTags.Number.Integer
import ClassTags.Number.Shortest

/-!
# Real numerals

Reads decimal numerals with a fraction or an exponent as binary floating point, and writes the
result: a whole number as the exact integer, any other as its shortest decimal.
-/

namespace ClassTags.Number

/-- What a real numeral denotes. -/
inductive Quantity where
  | number (negative : Bool) (magnitude : Binary64)
  | undefined

/-- The digits at the head of a text, and what follows them. -/
def splitDigits (t : Text) : Text × Text := (t.takeWhile Char.isDigit, t.dropWhile Char.isDigit)

/-- The value of a run of decimal digits. -/
def digitsValue (ds : Text) : Nat := Nat.ofDigitChars 10 ds 0

/-- Reads an exponent to the end of the text. -/
def exponent? : Text → Option Int
  | [] => some 0
  | mark :: cs =>
    if mark = 'e' ∨ mark = 'E' then
      let (negative, digits) :=
        match cs with
        | '-' :: ds => (true, ds)
        | '+' :: ds => (false, ds)
        | ds => (false, ds)
      if digits ≠ [] ∧ digits.all Char.isDigit then
        some (if negative then -(digitsValue digits : Int) else digitsValue digits)
      else none
    else none

/-- Reads an unsigned decimal numeral with an optional fraction and exponent. -/
def decimalMagnitude? (t : Text) : Option Binary64 :=
  let (whole, rest) := splitDigits t
  let (fraction, rest) :=
    match rest with
    | '.' :: cs => splitDigits cs
    | cs => ([], cs)
  if whole ++ fraction = [] then none
  else (exponent? rest).map fun e =>
    Binary64.ofDecimal (digitsValue (whole ++ fraction)) (e - fraction.length)

/-- Reads an unsigned numeral: a decimal, or one of the names of infinity and of the undefined
value. -/
def magnitude? (negative : Bool) (t : Text) : Option Quantity :=
  let name := t.map Char.toLower
  if name = ("inf" : Text) ∨ name = ("infinity" : Text) then some (.number negative .infinite)
  else if name = ("nan" : Text) then some .undefined
  else (decimalMagnitude? t).map (.number negative)

/-- The real number that a text spells, if it spells one. -/
def real? (t : Text) : Option Quantity :=
  match plain t with
  | '-' :: cs => magnitude? true cs
  | '+' :: cs => magnitude? false cs
  | cs => magnitude? false cs

/-- The text of a real number. -/
def Quantity.text : Quantity → Text
  | .undefined => "nan"
  | .number negative .infinite => if negative then "-inf" else "inf"
  | .number negative (.finite m q) =>
    match (Binary64.finite m q).natural? with
    | some n => integerText (if negative then -(n : Int) else n)
    | none => (if negative then ['-'] else []) ++ (shortest m q).text

end ClassTags.Number

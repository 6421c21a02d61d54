import ClassTags.Text.Utf8

/-!
# Text from code points

Escapes can write any code point, halves of surrogate pairs included. Such a list of code points is
read as 16-bit units: a high half followed by a low half is one character, and a half that stands
alone becomes U+FFFD.
-/

namespace ClassTags.Text

/-- The 16-bit units of a code point. -/
def units (n : Nat) : List Nat :=
  if n < 0x10000 then [n]
  else [0xD800 + (n - 0x10000) / 0x400, 0xDC00 + (n - 0x10000) % 0x400]

/-- Whether a unit is the first half of a pair. -/
def isHighHalf (u : Nat) : Bool := 0xD800 ≤ u && u ≤ 0xDBFF

/-- Whether a unit is the second half of a pair. -/
def isLowHalf (u : Nat) : Bool := 0xDC00 ≤ u && u ≤ 0xDFFF

/-- The character of a unit that is not part of a pair. -/
def ofUnit (u : Nat) : Char :=
  if isHighHalf u || isLowHalf u then replacement else Char.ofNat u

/-- The text of a list of units. -/
def ofUnits : List Nat → Text
  | [] => []
  | [u] => [ofUnit u]
  | u :: v :: rest =>
    if isHighHalf u && isLowHalf v then
      Char.ofNat (0x10000 + (u - 0xD800) * 0x400 + (v - 0xDC00)) :: ofUnits rest
    else ofUnit u :: ofUnits (v :: rest)

/-- The text of a list of code points. -/
def ofCodePoints (ns : List Nat) : Text := ofUnits (ns.flatMap units)

end ClassTags.Text

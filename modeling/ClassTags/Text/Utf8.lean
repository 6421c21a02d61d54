import ClassTags.Text.Basic

/-!
# Text from bytes

Bytes are read as UTF-8. Every maximal part of the input that cannot belong to a character counts as
one U+FFFD, so reading never fails. Line ends are then unified: a carriage return, with the line
feed after it if there is one, becomes a line feed.
-/

namespace ClassTags.Text

/-- What stands for bytes and code units that are no text. -/
def replacement : Char := '�'

/-- A character whose first bytes have been read: the value so far, the number of bytes still to
come, and the bounds of the next one. -/
structure Unfinished where
  value : Nat
  remaining : Nat
  low : Nat := 0x80
  high : Nat := 0xBF

/-- The first byte of a character: the text it makes by itself, or the character it begins. -/
def beginChar (b : Nat) : Text × Option Unfinished :=
  if b < 0x80 then ([Char.ofNat b], none)
  else if 0xC2 ≤ b ∧ b ≤ 0xDF then ([], some ⟨b - 0xC0, 1, 0x80, 0xBF⟩)
  else if b = 0xE0 then ([], some ⟨0, 2, 0xA0, 0xBF⟩)
  else if b = 0xED then ([], some ⟨0xD, 2, 0x80, 0x9F⟩)
  else if 0xE1 ≤ b ∧ b ≤ 0xEF then ([], some ⟨b - 0xE0, 2, 0x80, 0xBF⟩)
  else if b = 0xF0 then ([], some ⟨0, 3, 0x90, 0xBF⟩)
  else if b = 0xF4 then ([], some ⟨4, 3, 0x80, 0x8F⟩)
  else if 0xF1 ≤ b ∧ b ≤ 0xF3 then ([], some ⟨b - 0xF0, 3, 0x80, 0xBF⟩)
  else ([replacement], none)

/-- Reads the bytes after an unfinished character, if there is one. -/
def decodeFrom : Option Unfinished → List UInt8 → Text
  | none, [] => []
  | some _, [] => [replacement]
  | none, b :: bs =>
    let (out, next) := beginChar b.toNat
    out ++ decodeFrom next bs
  | some u, b :: bs =>
    if u.low ≤ b.toNat ∧ b.toNat ≤ u.high then
      let value := u.value * 64 + (b.toNat - 0x80)
      if u.remaining ≤ 1 then Char.ofNat value :: decodeFrom none bs
      else decodeFrom (some ⟨value, u.remaining - 1, 0x80, 0xBF⟩) bs
    else
      let (out, next) := beginChar b.toNat
      replacement :: out ++ decodeFrom next bs

/-- The text that bytes stand for. -/
def decode (bytes : List UInt8) : Text := decodeFrom none bytes

/-- Every line end becomes a line feed. -/
def unifyLineEnds : Text → Text
  | [] => []
  | '\r' :: '\n' :: cs => '\n' :: unifyLineEnds cs
  | c :: cs => (if c = '\r' then '\n' else c) :: unifyLineEnds cs

/-- The bytes of one character in UTF-8. -/
def encodeChar (c : Char) : List UInt8 :=
  let n := c.toNat
  let byte (k : Nat) : UInt8 := UInt8.ofNat k
  if n < 0x80 then [byte n]
  else if n < 0x800 then [byte (0xC0 + n / 64), byte (0x80 + n % 64)]
  else if n < 0x10000 then
    [byte (0xE0 + n / 4096), byte (0x80 + n / 64 % 64), byte (0x80 + n % 64)]
  else
    [byte (0xF0 + n / 262144), byte (0x80 + n / 4096 % 64), byte (0x80 + n / 64 % 64),
      byte (0x80 + n % 64)]

/-- The bytes of a text in UTF-8. -/
def encode (t : Text) : List UInt8 := t.flatMap encodeChar

end ClassTags.Text

import ClassTags.Literal.Failure
import ClassTags.Number.Integer

/-!
# Escape sequences

The value of an escape sequence is a list of code points: one for most escapes, none for a line
continuation. Halves of surrogate pairs are allowed here; the string they belong to joins them
(`ClassTags.Text.ofCodePoints`).
-/

namespace ClassTags.Literal

/-- The code points of a text. -/
def codePoints (t : Text) : List Nat := t.map Char.toNat

/-- The code point that hexadecimal digits name. -/
def hexCodePoint (digits : Text) : Except Failure (List Nat) :=
  match Number.hexInteger? digits with
  | none => .error (.notHexadecimal digits)
  | some i =>
    if i < -0x80000000 ∨ 0x7FFFFFFF < i then .error .beyondWord
    else if i < 0 ∨ 0x10FFFF < i then .error .beyondUnicode
    else .ok [i.toNat]

/-- Whether a text is one to three octal digits. -/
def isOctalEscape (t : Text) : Bool :=
  1 ≤ t.length && t.length ≤ 3 && t.all fun c => '0' ≤ c && c ≤ '7'

/-- The code point of an escape made of a single letter. -/
def letterEscape? (c : Char) : Option Nat :=
  match c with
  | 'n' => some 0x0A
  | 't' => some 0x09
  | 'r' => some 0x0D
  | 'b' => some 0x08
  | 'f' => some 0x0C
  | 'v' => some 0x0B
  | _ => none

/-- The value of the part of an escape sequence after the backslash. A character without a meaning
of its own stands for itself. -/
def escapeBody (body : Text) : Except Failure (List Nat) :=
  match body with
  | 'u' :: '{' :: rest =>
    if rest.getLast? = some '}' then hexCodePoint rest.dropLast else hexCodePoint ('{' :: rest)
  | 'u' :: c :: rest => hexCodePoint (c :: rest)
  | 'x' :: c :: rest => hexCodePoint (c :: rest)
  | '\n' :: _ => .ok []
  | '\r' :: _ => .ok []
  | _ =>
    if isOctalEscape body then .ok [(Number.digits? 8 body).getD 0]
    else
      match body with
      | [c] => .ok [(letterEscape? c).getD c.toNat]
      | _ => .ok (codePoints body)

/-- The value of an escape sequence, the backslash included. -/
def escapeValue (sequence : Text) : Except Failure (List Nat) := escapeBody (sequence.drop 1)

end ClassTags.Literal

import ClassTags.Text.Basic

/-!
# Plain text

A control sequence tells a terminal how to show what follows: the escape character and an opening
bracket, then numbers with semicolons or question marks between them, then a letter. What is not
written to a terminal is written without them.

Main definitions:

* `Text.controlLength` — how long the control sequence at the front of a text is;
* `Text.plain` — a text without its control sequences.
-/

namespace ClassTags.Text

/-- The character that begins a control sequence. -/
def escape : Char := '\x1b'

/-- The characters between the bracket of a control sequence and its letter. -/
def isParameter (c : Char) : Bool := c == ';' || c == '?' || c.isDigit

/-- The number of characters of the control sequence at the front of a text, zero if there is
none. -/
def controlLength : Text → Nat
  | first :: '[' :: t =>
    if first = escape then
      match t.dropWhile isParameter with
      | [] => 0
      | letter :: _ => if letter.isAlpha then (t.takeWhile isParameter).length + 3 else 0
    else 0
  | _ => 0

/-- `plain` in the middle of a text: the next `skipped` characters belong to a control sequence. -/
def plainFrom : (skipped : Nat) → Text → Text
  | _, [] => []
  | skipped + 1, _ :: t => plainFrom skipped t
  | 0, c :: t =>
    match controlLength (c :: t) with
    | 0 => c :: plainFrom 0 t
    | length + 1 => plainFrom length t

/-- A text without its control sequences, from the first one on. What is left may read as a control
sequence again. -/
def plain (t : Text) : Text := plainFrom 0 t

example : plain ("A\x1b[1;31mB\x1b[0" : Text) = ("AB\x1b[0" : Text) := by decide

end ClassTags.Text

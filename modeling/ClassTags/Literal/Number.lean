import ClassTags.Literal.Failure
import ClassTags.Number.Quantity

/-!
# The value of a number literal

A number literal names the number it denotes by one canonical text, so that two spellings of the
same integer name the same member. Literals that denote no number (such as those with the suffix
`n`) are kept as they are written.
-/

namespace ClassTags.Literal

/-- Whether a text is a zero followed by octal digits only. -/
def isLegacyOctal : Text → Bool
  | '0' :: c :: cs => (c :: cs).all fun d => '0' ≤ d && d ≤ '7'
  | _ => false

/-- The value of a number literal as text. Underscores do not count. -/
def numberValue (t : Text) : Except Failure Text :=
  let digits := t.filter (· != '_')
  if isLegacyOctal digits then
    match (Number.digits? 8 digits).bind fun n => Number.limitedText? n with
    | some value => .ok value
    | none => .error .tooManyDigits
  else
    match (Number.integer? digits).bind Number.limitedText? with
    | some value => .ok value
    | none =>
      match Number.real? digits with
      | some value => .ok value.text
      | none => .ok t

end ClassTags.Literal

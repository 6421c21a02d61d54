import ClassTags.Text.Quoted

/-!
# Literals without a value

A literal that is correct in form can still have no value: an escape may name a code point beyond
Unicode, and an octal numeral may be too long to be written in decimal.
-/

namespace ClassTags.Literal

/-- Why a literal has no value. -/
inductive Failure where
  /-- The code point of an escape lies beyond Unicode. -/
  | beyondUnicode
  /-- The code point of an escape does not fit into a 32-bit word. -/
  | beyondWord
  /-- The digits of an escape are not hexadecimal. -/
  | notHexadecimal (digits : Text)
  /-- The decimal numeral would have too many digits. -/
  | tooManyDigits
deriving DecidableEq, Repr

/-- The message for a literal without a value. -/
def Failure.message : Failure → Text
  | .beyondUnicode => "chr() arg not in range(0x110000)"
  | .beyondWord => "Python int too large to convert to C int"
  | .notHexadecimal digits => "invalid literal for int() with base 16: " ++ Text.quoted digits
  | .tooManyDigits =>
    "Exceeds the limit (4300 digits) for integer string conversion; use " ++
      "sys.set_int_max_str_digits() to increase the limit"

end ClassTags.Literal

/-!
# Binary floating point

The magnitudes of the 64-bit binary format: `m · 2 ^ q` with `m < 2 ^ 53` and `-1074 ≤ q ≤ 971`, and
infinity. A decimal is rounded to the nearest of them in exact arithmetic on natural numbers, a tie
going to the even significand.
-/

namespace ClassTags.Number

/-- A magnitude of the 64-bit binary format. -/
inductive Binary64 where
  | finite (significand : Nat) (exponent : Int)
  | infinite

/-- The quotient rounded to the nearest natural number, a half going to the even one. -/
def roundDiv (num den : Nat) : Nat :=
  let q := num / den
  let twice := 2 * (num % den)
  if den < twice ∨ (twice = den ∧ q % 2 = 1) then q + 1 else q

/-- The number of decimal digits of a number, none for zero. -/
def digitCount (n : Nat) : Nat := if n = 0 then 0 else (Nat.toDigits 10 n).length

namespace Binary64

/-- The exponent of the lowest bit of the format. -/
def leastExponent : Int := -1074

/-- The exponent of the lowest bit of the greatest finite magnitudes. -/
def greatestExponent : Int := 971

/-- The greatest `k` with `2 ^ k ≤ num / den`. -/
def floorLog2 (num den : Nat) : Int :=
  let k : Int := (num.log2 : Int) - den.log2
  let fits :=
    if 0 ≤ k then den * Nat.pow 2 k.toNat ≤ num else den ≤ num * Nat.pow 2 (-k).toNat
  if fits then k else k - 1

/-- The magnitude nearest to the positive quotient `num / den`. -/
def ofQuotient (num den : Nat) : Binary64 :=
  let q := max (floorLog2 num den - 52) leastExponent
  let m :=
    if 0 ≤ q then roundDiv num (den * Nat.pow 2 q.toNat)
    else roundDiv (num * Nat.pow 2 (-q).toNat) den
  let (m, q) := if m = Nat.pow 2 53 then (Nat.pow 2 52, q + 1) else (m, q)
  if greatestExponent < q then infinite else finite m q

/-- The magnitude nearest to `digits · 10 ^ e`. Decimals far outside the format are settled by their
number of digits, so that no power of ten has to be formed for them. -/
def ofDecimal (digits : Nat) (e : Int) : Binary64 :=
  if digits = 0 ∨ e + digitCount digits < -330 then finite 0 leastExponent
  else if 310 < e + digitCount digits then infinite
  else if 0 ≤ e then ofQuotient (digits * Nat.pow 10 e.toNat) 1
  else ofQuotient digits (Nat.pow 10 (-e).toNat)

/-- The natural number that a magnitude is, if it is one. -/
def natural? : Binary64 → Option Nat
  | infinite => none
  | finite m q =>
    if 0 ≤ q then some (m * Nat.pow 2 q.toNat)
    else if m % Nat.pow 2 (-q).toNat = 0 then some (m / Nat.pow 2 (-q).toNat)
    else none

end Binary64

end ClassTags.Number

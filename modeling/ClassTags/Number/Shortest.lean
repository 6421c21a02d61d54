import ClassTags.Number.Binary64
import ClassTags.Text.Basic

/-!
# The shortest decimal of a binary magnitude

Of all decimals that round to a given magnitude, `shortest` takes one with the fewest digits, and of
those the nearest to the magnitude. A text shows it positionally as long as the decimal point stays
near the digits, and otherwise with an exponent of at least two digits.
-/

namespace ClassTags.Number

/-- The decimal `0.d₁d₂… · 10 ^ point`, where `d₁d₂…` are the digits of `digits`. -/
structure Decimal where
  digits : Nat
  point : Int
deriving DecidableEq, Repr

/-- A fraction of natural numbers. -/
structure Fraction where
  num : Nat
  den : Nat

namespace Fraction

/-- The fraction `n · 2 ^ q`. -/
def scale (n : Nat) (q : Int) : Fraction :=
  if 0 ≤ q then ⟨n * Nat.pow 2 q.toNat, 1⟩ else ⟨n, Nat.pow 2 (-q).toNat⟩

/-- The fraction times a power of ten. -/
def shift (x : Fraction) (e : Int) : Fraction :=
  if 0 ≤ e then ⟨x.num * Nat.pow 10 e.toNat, x.den⟩
  else ⟨x.num, x.den * Nat.pow 10 (-e).toNat⟩

/-- Where the decimal point of a positive fraction stands: the least `p` with `x < 10 ^ p`. -/
def point (x : Fraction) : Int :=
  if x.den ≤ x.num then (digitCount (x.num / x.den) : Int)
  else 1 - (digitCount ((x.den + x.num - 1) / x.num - 1) : Int)

/-- Whether `x < n`. -/
def ltNat (x : Fraction) (n : Nat) : Bool := x.num < n * x.den

/-- Whether `n < x`. -/
def natLt (n : Nat) (x : Fraction) : Bool := n * x.den < x.num

end Fraction

/-- The decimals that round to `m · 2 ^ q`, as bounds on a scaled value. The bounds themselves round
to it when `m` is even. -/
structure RoundingInterval where
  low : Fraction
  high : Fraction
  closed : Bool

/-- The interval of the numbers that round to `m · 2 ^ q`. Below a power of two the neighbours lie
closer together. -/
def roundingInterval (m : Nat) (q : Int) : RoundingInterval where
  low := Fraction.scale
    (if m = Nat.pow 2 52 ∧ Binary64.leastExponent < q then 4 * m - 1 else 4 * m - 2) (q - 2)
  high := Fraction.scale (4 * m + 2) (q - 2)
  closed := m % 2 = 0

/-- Whether the natural number `n` lies in the interval times `10 ^ e`. -/
def RoundingInterval.contains (i : RoundingInterval) (e : Int) (n : Nat) : Bool :=
  let low := i.low.shift e
  let high := i.high.shift e
  if i.closed then !high.ltNat n && !Fraction.natLt n low
  else low.ltNat n && Fraction.natLt n high

/-- The best decimal with `count` digits: of the two neighbours of the value, the nearer one that
lies in the interval. -/
def withDigits? (m : Nat) (q : Int) (count : Nat) : Option Decimal :=
  let value := Fraction.scale m q
  let interval := roundingInterval m q
  let point := value.point
  let e : Int := count - point
  let scaled := value.shift e
  let below := scaled.num / scaled.den
  let twice := 2 * (scaled.num % scaled.den)
  let nearer := if scaled.den < twice ∨ (twice = scaled.den ∧ below % 2 = 1) then below + 1 else below
  let farther := if nearer = below then below + 1 else below
  let result (n : Nat) : Decimal := ⟨n, if Nat.pow 10 count ≤ n then point + 1 else point⟩
  if interval.contains e nearer then some (result nearer)
  else if interval.contains e farther then some (result farther)
  else none

/-- The shortest decimal of `m · 2 ^ q`; seventeen digits always suffice. -/
def shortest (m : Nat) (q : Int) : Decimal :=
  ((List.range' 1 17).findSome? (withDigits? m q)).getD ⟨0, 0⟩

/-- The digits of a decimal without the zeros at their end. -/
def Decimal.significant (d : Decimal) : Text :=
  ((Text.decimal d.digits).reverse.dropWhile (· == '0')).reverse

/-- The positional notation ends where the first digit stands more than this many places before the
decimal point. -/
def positionalLimit : Int := 16

/-- The text of a decimal: positional from `10 ^ -4` up to `10 ^ 16`, with an exponent elsewhere. -/
def Decimal.text (d : Decimal) : Text :=
  let digits := d.significant
  if -4 < d.point ∧ d.point ≤ positionalLimit then
    if d.point ≤ 0 then "0." ++ List.replicate (-d.point).toNat '0' ++ digits
    else
      let whole := digits.take d.point.toNat ++ List.replicate (d.point.toNat - digits.length) '0'
      let fraction := digits.drop d.point.toNat
      whole ++ '.' :: (if fraction.isEmpty then ['0'] else fraction)
  else
    let exponent := d.point - 1
    let places := Text.decimal exponent.natAbs
    let padded := if places.length < 2 then '0' :: places else places
    digits.take 1 ++ (if digits.length ≤ 1 then [] else '.' :: digits.drop 1) ++
      'e' :: (if exponent < 0 then '-' else '+') :: padded

end ClassTags.Number

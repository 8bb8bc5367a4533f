import Highlighter.Decimal.Binary

/-!
# The shortest decimal of a binary number

Many decimals are read as the same binary number. The one to write has the fewest digits,
and among those of as many digits it is the nearest. If a decimal of a given number of
digits lies in the interval of what is read as the number, then so does one of the two
neighbours of the number on the grid of such decimals, so only these two are tried.
-/

namespace Highlighter.Decimal

/-- The number `digits * 10 ^ exponent`. -/
structure Scaled where
  digits : Nat
  exponent : Int
  deriving DecidableEq, Repr

namespace Scaled

/-- A decimal and a multiple of a power of two, both multiplied by what makes them
natural numbers. -/
def compared (decimal : Scaled) (multiple : Nat) (exponent : Int) : Nat × Nat :=
  let (up, down) := powerOfTen decimal.exponent
  let (twoUp, twoDown) := powerOfTwo exponent
  (decimal.digits * up * twoDown, multiple * twoUp * down)

/-- The same number without zeros at the end of its digits. -/
def trimmed (decimal : Scaled) : Scaled :=
  if h : decimal.digits ≠ 0 ∧ decimal.digits % 10 = 0 then
    trimmed ⟨decimal.digits / 10, decimal.exponent + 1⟩
  else decimal
termination_by decimal.digits
decreasing_by exact Nat.div_lt_self (Nat.pos_of_ne_zero h.1) (by omega)

/-- Digits with a point among or behind them, and a zero behind a point at the end. -/
def positional (decimal : Scaled) : String :=
  let digits := Nat.toDigits 10 decimal.digits
  let places := (-decimal.exponent).toNat
  if places = 0 then
    let whole := if decimal.digits = 0 then digits
      else digits ++ List.replicate decimal.exponent.toNat '0'
    String.ofList (whole ++ ['.', '0'])
  else
    let padded := List.replicate (places + 1 - digits.length) '0' ++ digits
    let whole := padded.length - places
    String.ofList (padded.take whole ++ '.' :: padded.drop whole)

end Scaled

namespace Binary

/-- What is read as the number: the decimals between the middles to its neighbours, as
multiples of a quarter of its last place. A middle itself is read as the number with the
even significand. Below a power of two the neighbour is at half the distance. -/
def holds (number : Binary) (decimal : Scaled) : Bool :=
  let centre := 4 * number.significand
  let below :=
    if number.significand = leastSignificand ∧ leastExponent < number.exponent then 1 else 2
  let inclusive := number.significand % 2 = 0
  let (low, lowest) := decimal.compared (centre - below) (number.exponent - 2)
  let (high, highest) := decimal.compared (centre + 2) (number.exponent - 2)
  (lowest < low || (inclusive && lowest = low)) && (high < highest || (inclusive && high = highest))

/-- The power of ten at or below the number. -/
def magnitude (number : Binary) : Int :=
  let (up, down) := powerOfTwo number.exponent
  ((Nat.toDigits 10 (number.significand * up * Nat.pow 10 400 / down)).length : Int) - 401

/-- The neighbour of the number, among decimals of so many digits, that is read as the
number; the nearer one if both are, and the upper one at the same distance. -/
def neighbour? (number : Binary) (count : Nat) : Option Scaled :=
  let exponent := number.magnitude + 1 - count
  let (up, down) := powerOfTwo number.exponent
  let (tenUp, tenDown) := powerOfTen exponent
  let numerator := number.significand * up * tenDown
  let denominator := down * tenUp
  let lower : Scaled := ⟨numerator / denominator, exponent⟩
  let upper : Scaled := ⟨numerator / denominator + 1, exponent⟩
  let nearer := if 2 * (numerator % denominator) < denominator then [lower, upper]
    else [upper, lower]
  nearer.find? number.holds

/-- The shortest decimal that is read as the number. Seventeen digits always suffice. -/
def shortest (number : Binary) : Scaled :=
  if number.significand = 0 then ⟨0, 0⟩
  else (((List.range 17).findSome? fun count => number.neighbour? (count + 1)).getD ⟨0, 0⟩).trimmed

end Binary

end Highlighter.Decimal

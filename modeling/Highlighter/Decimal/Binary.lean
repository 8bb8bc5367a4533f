/-!
# Binary floating point numbers

Decimal text is rounded to the nearest number of the 64-bit binary format: a significand
of 53 bits times a power of two. All of it is arithmetic of natural numbers, so nothing
is lost before the one rounding that the format asks for.
-/

namespace Highlighter.Decimal

/-- The number `significand * 2 ^ exponent`. The significand is below `2 ^ 53`, and at or
above `2 ^ 52` unless the exponent is the least one. -/
structure Binary where
  significand : Nat
  exponent : Int
  deriving DecidableEq, Repr

/-- A quotient rounded to the nearest natural number, a half to the even neighbour. -/
def roundedQuotient (numerator denominator : Nat) : Nat :=
  let quotient := numerator / denominator
  let twice := 2 * (numerator % denominator)
  if denominator < twice ∨ (twice = denominator ∧ quotient % 2 = 1) then quotient + 1
  else quotient

/-- `10 ^ exponent`, as a numerator and a denominator. -/
def powerOfTen (exponent : Int) : Nat × Nat :=
  (Nat.pow 10 exponent.toNat, Nat.pow 10 (-exponent).toNat)

/-- `2 ^ exponent`, as a numerator and a denominator. -/
def powerOfTwo (exponent : Int) : Nat × Nat :=
  (Nat.pow 2 exponent.toNat, Nat.pow 2 (-exponent).toNat)

namespace Binary

/-- The least significand of a number whose exponent is not the least one. -/
def leastSignificand : Nat := 0x10000000000000

/-- The least exponent of the format. -/
def leastExponent : Int := -1074

/-- The greatest exponent of the format. -/
def greatestExponent : Int := 971

/-- Zero. -/
def zero : Binary := ⟨0, leastExponent⟩

/-- The number nearest to a fraction, unless it is beyond the format. The first guess at
the exponent leaves 53 or 54 bits before the point; with 54 it was one too small. -/
def ofFraction? (numerator denominator : Nat) : Option Binary :=
  let guess := max leastExponent ((numerator.log2 : Int) - denominator.log2 - 53)
  let quotient := fun (exponent : Int) =>
    let (up, down) := powerOfTwo exponent
    (numerator * down, denominator * up)
  let (top, bottom) := quotient guess
  let exponent := if 2 * leastSignificand ≤ top / bottom then guess + 1 else guess
  let (top, bottom) := quotient exponent
  let significand := roundedQuotient top bottom
  let number : Binary :=
    if significand = 2 * leastSignificand then ⟨leastSignificand, exponent + 1⟩ else ⟨significand, exponent⟩
  if greatestExponent < number.exponent then none else some number

/-- The number nearest to `digits * 10 ^ exponent`, unless it is beyond the format. A
decimal far outside of the format is recognised by its size alone. -/
def ofDecimal? (digits : Nat) (exponent : Int) : Option Binary :=
  let magnitude := exponent + (Nat.toDigits 10 digits).length
  if digits = 0 ∨ magnitude < -400 then some zero
  else if 400 < magnitude then none
  else
    let (up, down) := powerOfTen exponent
    ofFraction? (digits * up) down

end Binary

end Highlighter.Decimal

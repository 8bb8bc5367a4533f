import Highlighter.Decimal.Shortest
import Highlighter.Toml.Token

/-!
# Numbers of a TOML text

Runs of digits with underscores between them, and the numbers that are made of them.
Integers are those of 64 bits. Other numbers are rounded to the nearest binary one.
-/

namespace Highlighter.Toml

/-- A number that need not be whole. -/
inductive Real where
  | finite (negative : Bool) (magnitude : Decimal.Binary)
  | infinite (negative : Bool)
  | undefined
  deriving DecidableEq, Repr

/-- The shortest text of a number. Zero keeps its sign. -/
def Real.text : Real → String
  | finite negative magnitude =>
    (if negative then "-" else "") ++ magnitude.shortest.positional
  | infinite negative => if negative then "-inf" else "inf"
  | undefined => "NaN"

/-- A problem with the number at a position. -/
def invalidNumber (position : Nat) : Problem := ⟨.invalidNumber, some position, []⟩

/-- A run of digits, and what follows it in the same word. -/
structure Digits where
  negative : Bool
  digits : List Char
  rest : List Char

namespace Digits

/-- The number that the digits write. -/
def value (radix : Nat) (digits : List Char) : Nat :=
  digits.foldl (fun number digit => radix * number + (Token.digitValue? digit).getD 0) 0

/-- The signed number that the run writes. -/
def signed (radix : Nat) (run : Digits) : Int :=
  if run.negative then -(value radix run.digits : Int) else value radix run.digits

/-- Whether a run may begin with a sign, and whether with a zero before other digits. -/
structure Rules where
  sign : Bool
  leadingZeros : Bool

/-- Read digits behind the sign. `found` are the digits so far, the last one first, `zero`
tells that they begin with a zero that has to stay alone, and `opened` that an underscore
came last. -/
def readRun (radix start : Nat) (found : List Char) (zero opened : Bool) (position : Nat) :
    List Char → Except Problem (List Char × List Char)
  | [] => finish []
  | character :: rest =>
    if ((Token.digitValue? character).any fun value => value < radix) then
      if zero then .error (invalidNumber position)
      else readRun radix start (character :: found) false false (position + 1) rest
    else if character = '_' ∧ found.isEmpty then .error (invalidNumber position)
    else if character = '_' ∧ !opened then
      readRun radix start found zero true (position + 1) rest
    else finish (character :: rest)
where
  /-- A run has digits and ends in one. -/
  finish (rest : List Char) : Except Problem (List Char × List Char) :=
    if found.isEmpty || opened then .error (invalidNumber start)
    else .ok (found.reverse, rest)

/-- Read a run of digits from the begin of a word. -/
def read (radix : Nat) (rules : Rules) (position : Nat) (word : List Char) :
    Except Problem Digits := do
  let negative := rules.sign && word.head? = some '-'
  let (place, behind) := if negative then (position + 1, word.drop 1) else (position, word)
  let (digits, rest) ← match behind with
    | '0' :: others => readRun radix position ['0'] (!rules.leadingZeros) false (place + 1) others
    | _ => readRun radix position [] false false place behind
  return ⟨negative, digits, rest⟩

/-- Integers lie below this bound, and not below its negation. -/
def integerBound : Int := 0x8000000000000000

/-- Read an integer that takes up a whole word. -/
def integer (radix : Nat) (rules : Rules) (position : Nat) (word : List Char) :
    Except Problem Int := do
  let run ← read radix rules position word
  let number := run.signed radix
  if run.rest ≠ [] ∨ number < -integerBound ∨ integerBound ≤ number then throw (invalidNumber position)
  return number

/-- The number of a run, the digits behind its point, and an exponent, if it is one of
the format. -/
def real? (whole : Digits) (fraction : List Char) (exponent : Int) : Option Real :=
  (Decimal.Binary.ofDecimal? (value 10 (whole.digits ++ fraction))
    (exponent - fraction.length)).map (.finite whole.negative)

end Digits

end Highlighter.Toml

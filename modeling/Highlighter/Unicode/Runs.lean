/-!
# Tables of runs

A property that gives every code point a value changes its value rarely. `Runs` keeps
the first code point of each run of equal values and the value itself, and answers a
look-up by halving. Tables are written as text, so that a reader can compare them with
the published data, and are read once.
-/

namespace Highlighter.Unicode

/-- Runs of equal values. Run `i` begins at `firsts[i]` and ends before `firsts[i + 1]`. -/
structure Runs (Value : Type) where
  /-- The first code point of each run, in increasing order. -/
  firsts : Array Nat
  /-- The value that each run carries. -/
  values : Array Value

namespace Runs

variable {Value : Type}

/-- One word of a table, split into the code of its value and the length of its run.
A missing length stands for one. -/
def readWord (word : List Char) : String × Nat :=
  let code := word.takeWhile fun letter => !letter.isDigit
  let digits := word.dropWhile fun letter => !letter.isDigit
  let length := digits.foldl (fun total digit => 10 * total + (digit.toNat - 48)) 0
  (String.ofList code, if digits.isEmpty then 1 else length)

/-- Cut a text at its spaces and line ends. Empty words between neighbours are left out. -/
def words (text : List Char) : List (List Char) :=
  let step := fun (letter : Char) (state : List Char × List (List Char)) =>
    if letter = ' ' ∨ letter = '\n' then ([], if state.1.isEmpty then state.2 else state.1 :: state.2)
    else (letter :: state.1, state.2)
  let (word, rest) := text.foldr step ([], [])
  if word.isEmpty then rest else word :: rest

/-- Read a table. A word whose code stands for no value keeps its place but carries the
fallback. -/
def ofText (fallback : Value) (value? : String → Option Value) (text : String) : Runs Value :=
  let step := fun (state : Nat × Runs Value) (word : List Char) =>
    let (code, length) := readWord word
    let value := (value? code).getD fallback
    (state.1 + length, ⟨state.2.firsts.push state.1, state.2.values.push value⟩)
  ((words text.toList).foldl step (0, ⟨#[], #[]⟩)).2

/-- The last index from `low` on, and before `high`, whose run begins at or before the
code point; `low` itself when there is none. -/
def lastBefore (runs : Runs Value) (code : Nat) (low high : Nat) : Nat :=
  if low + 1 < high then
    let middle := (low + high) / 2
    if runs.firsts.getD middle 0 ≤ code then runs.lastBefore code middle high
    else runs.lastBefore code low middle
  else low
termination_by high - low

/-- The value of a code point. -/
def find? (runs : Runs Value) (code : Nat) : Option Value :=
  runs.values[runs.lastBefore code 0 runs.firsts.size]?

end Runs

end Highlighter.Unicode

import Highlighter.Unicode.ScriptTable
import Highlighter.Unicode.Runs

/-!
# Scripts

Every code point belongs to one script. A script is known by a four-letter code and by
a long name; pattern syntax accepts either.
-/

namespace Highlighter.Unicode

/-- A script, known by its four-letter code. -/
structure Script where
  /-- The code, with a capital first letter. -/
  code : String
  deriving DecidableEq, Repr

namespace Script

/-- The script of code points that have none. -/
def unknown : Script := ⟨"Zzzz"⟩

/-- The scripts of all code points. -/
def table : Runs Script := Runs.ofText unknown (fun code => some ⟨code⟩) scriptRuns

/-- The script of a character. -/
def of (character : Char) : Script := (table.find? character.toNat).getD unknown

/-- Names in lower case and without separators, each with its script. -/
def names : List (String × Script) :=
  (Runs.words scriptNames.toList).flatMap fun word =>
    let code := word.takeWhile (· ≠ '=')
    let name := (word.dropWhile (· ≠ '=')).drop 1
    let plain := fun (letters : List Char) =>
      String.ofList ((letters.filter (· ≠ '_')).map Char.toLower)
    [(plain code, ⟨String.ofList code⟩), (plain name, ⟨String.ofList code⟩)]

end Script

end Highlighter.Unicode

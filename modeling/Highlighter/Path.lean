/-!
# Paths

A path names a file by components between slashes. What matters here is its file name
and the extension of that name. Slashes at the end and components of a single period
count for nothing.
-/

namespace Highlighter

/-- A path as it is written. -/
structure Path where
  text : String
  deriving DecidableEq, Repr

namespace Path

/-- Cut a text at every occurrence of a character. There is one part more than there are
occurrences. -/
def cut (separator : Char) : List Char → List (List Char)
  | [] => [[]]
  | character :: rest =>
    if character = separator then [] :: cut separator rest
    else match cut separator rest with
      | [] => [[character]]
      | first :: others => (character :: first) :: others

/-- The components that count. -/
def components (path : Path) : List (List Char) :=
  (cut '/' path.text.toList).filter fun component => component ≠ [] && component ≠ ['.']

/-- The last component, unless it leads to the directory above. -/
def fileName? (path : Path) : Option (List Char) :=
  path.components.getLast?.filter (· ≠ ['.', '.'])

/-- What follows the last period of the file name. A name without a period has no
extension, nor has one whose only period comes first. -/
def extension? (path : Path) : Option String :=
  path.fileName?.bind fun name =>
    let reversed := name.reverse
    let extension := reversed.takeWhile (· ≠ '.')
    let stem := (reversed.drop extension.length).drop 1
    if stem.isEmpty then none else some (String.ofList extension.reverse)

end Path

end Highlighter

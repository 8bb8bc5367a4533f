import Highlighter.Grammar.Description
import Highlighter.Highlight
import Highlighter.Source

/-!
# Reports

How a failure is told to someone at a terminal: what failed, in bold behind a red mark and
the name of the file, and for failures of a grammar an explanation below.
-/

namespace Highlighter.Report

/-- A character that does not count at either end of a report. -/
def isBlank (character : Char) : Bool :=
  character = ' ' || character = '\t' || character = '\n' || character = '\r' ||
    character = '\x0c'

/-- A text without blanks at its ends. -/
def trimmed (text : String) : String :=
  String.ofList ((text.toList.dropWhile isBlank).reverse.dropWhile isBlank).reverse

/-- Text in bold letters. -/
def bold (text : String) : String := "\x1b[1m" ++ text ++ "\x1b[0m"

/-- The mark of a failure. -/
def mark : String := "\x1b[91merror\x1b[39m"

/-- What failed, with an explanation below. -/
def explained (filename problem explanation : String) : String :=
  trimmed (mark ++ ": " ++ filename ++ " " ++ bold problem ++ "\n\n" ++ explanation)

/-- The report of a run that ended early. -/
def highlighting (filename : String) (error : HighlightError) : String :=
  let cited := "\n\n    " ++ error.pattern ++ "\n\n" ++ error.problem.message ++ "\n\n"
  match error with
  | .invalidPattern category _ _ =>
    explained filename ("Invalid pattern for " ++ category.className)
      ("The grammar's pattern for this category could not be compiled:" ++ cited ++
        "Categories before it have already been applied to the content.")
  | .matchFailed category _ _ =>
    explained filename ("Matching failed for " ++ category.className)
      ("The grammar's pattern for this category compiled but gave up while\n" ++
        "scanning the content:" ++ cited ++
        "This usually means the pattern backtracks excessively on this input.")

/-- The report of a grammar that could not be had. -/
def grammar (filename : String) (error : GrammarError) : String :=
  match error with
  | .unreadable details => explained filename "Unable to read grammar" details
  | .invalidDescription details =>
    explained filename "Invalid grammar description" (trimmed details)
  | .invalidName name =>
    explained filename ("Invalid language name '" ++ name ++ "'")
      ("Language names start with a lower case letter and contain only letters, digits, " ++
        "'_', '+' and '-'.")
  | .invalidExtension extension =>
    explained filename ("Invalid file extension '" ++ extension ++ "'")
      "Extensions contain only letters, digits, '_', '+' and '-'."

/-- The report of code that could not be read. -/
def loading (error : LoadingError) : String :=
  mark ++ ": " ++ error.filename ++ ": " ++ bold error.problem

/-- The report of a file for which no language was found, or not the one asked for. -/
def language (filename : String) (requested : Option String) : String :=
  match requested with
  | some name => mark ++ ": " ++ filename ++ ": " ++ bold "Unknown language" ++ " '" ++ name ++ "'"
  | none =>
    mark ++ ": " ++ filename ++ ": " ++ bold "Unable to determine language; use --language"

end Highlighter.Report

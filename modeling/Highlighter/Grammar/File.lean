import Highlighter.Grammar.Description
import Highlighter.Source

/-!
# Grammar files

A grammar that is described in a file of its own.
-/

namespace Highlighter

/-- Read the grammar that a file describes. Together with it, or with the reason why there
is none, comes what is left to read and what is told about it. -/
def Grammar.load (inputs : Inputs) (filename : String) :
    Except GrammarError Grammar × Inputs × List Message :=
  let loaded := inputs.load filename
  match loaded.text with
  | .error error =>
    (.error (.unreadable (filename ++ ": " ++ error.message)), loaded.inputs, loaded.log)
  | .ok text =>
    match Grammar.parse text with
    | .error error => (.error error, loaded.inputs, loaded.log)
    | .ok (grammar, log) => (.ok grammar, loaded.inputs, loaded.log ++ log)

end Highlighter

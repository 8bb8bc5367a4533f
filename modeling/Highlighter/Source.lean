import Highlighter.Highlight

/-!
# Sources

Code comes from a file, or from the standard input if the name is a hyphen. It is escaped
at once, so that its own angle brackets and ampersands are never taken for markup. The
standard input can be read once; a second reader finds it empty.
-/

namespace Highlighter

/-- What can be read. -/
structure Inputs where
  /-- The text of each file, or why it cannot be read. -/
  file : String → Except ReadFailure String
  /-- The text of the standard input that has not been read yet. -/
  standard : Except ReadFailure String

/-- A failure to read the code that was asked for. -/
structure LoadingError where
  problem : String
  details : String
  filename : String
  deriving DecidableEq, Repr

/-- The failure with its details, if there are any. -/
def LoadingError.message (error : LoadingError) : String :=
  if error.details.isEmpty then error.problem else error.problem ++ ": " ++ error.details

/-- A read failure in words. -/
def ReadFailure.kind : ReadFailure → String
  | notFound => "entity not found"
  | isDirectory => "is a directory"
  | notDirectory => "not a directory"
  | invalidText => "invalid data"
  | invalidName => "invalid input parameter"
  | nameTooLong => "invalid filename"

namespace Inputs

/-- The name of the standard input. -/
def standardName : String := "-"

/-- What reading comes to: the text, what is left to read, and what is told about it. -/
structure Loaded where
  text : Except LoadingError String
  inputs : Inputs
  log : List Message

/-- Read a file or the standard input. -/
def load (inputs : Inputs) (filename : String) : Loaded :=
  if filename = standardName then
    let left := { inputs with standard := .ok "" }
    match inputs.standard with
    | .ok text => ⟨.ok text, left, []⟩
    | .error failure =>
      ⟨.error ⟨"Failed reading standard input", failure.kind, filename⟩, left,
        [.unreadable failure]⟩
  else
    match inputs.file filename with
    | .ok text => ⟨.ok text, inputs, []⟩
    | .error .notFound =>
      ⟨.error ⟨"File not found", "", filename⟩, inputs, [.unreadable .notFound]⟩
    | .error failure =>
      ⟨.error ⟨"Failed reading", failure.kind, filename⟩, inputs, [.unreadable failure]⟩

end Inputs

/-- Code with the name it came under. -/
structure Source where
  filename : String
  content : String
  deriving DecidableEq, Repr

/-- A source holds its code, and keeps its name. -/
instance : Content Source := ⟨Source.content, fun source text => { source with content := text }⟩

/-- Read code and escape it. -/
def Source.load (inputs : Inputs) (filename : String) :
    Except LoadingError Source × Inputs × List Message :=
  let loaded := inputs.load filename
  match loaded.text with
  | .error error => (.error error, loaded.inputs, loaded.log)
  | .ok text =>
    let content := Entity.escapeText text
    (.ok ⟨filename, content⟩, loaded.inputs,
      loaded.log ++ [.loaded content.utf8ByteSize filename])

end Highlighter

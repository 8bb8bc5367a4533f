import Highlighter.Command.Switch

/-!
# Requests

What a command line asks for. How much is told about the work is asked for apart from the
work itself. It can be said before and behind a command, and what is said behind counts.
-/

namespace Highlighter.Command

/-- A request to highlight a file. -/
structure Options where
  filename : String
  language : Option String := none
  /-- A file that describes a grammar. -/
  grammarFile : Option String := none
  /-- The answer is a whole page. -/
  document : Bool := false
  /-- The title of the page. -/
  title : Option String := none
  deriving DecidableEq, Repr

/-- What a command line asks for. -/
inductive Request where
  | highlight (options : Options)
  | languages
  | stylesheet
  /-- Nothing has been asked for. -/
  | usage
  | version (program : String)
  deriving DecidableEq, Repr

/-- A request with how much is to be told about it. -/
structure Invocation where
  verbosity : Nat
  request : Request
  deriving DecidableEq, Repr

/-- The name of the program. -/
def programName : String := "overlay"

/-- The switches that every command takes. -/
def commonSwitches : List Switch :=
  [⟨"verbose", some 'v', .count⟩, ⟨"help", some 'h', .help⟩, ⟨"version", some 'V', .version⟩]

/-- What stands in front of a command. -/
def programForm : Form := ⟨commonSwitches, 0, ["highlight", "languages", "stylesheet"]⟩

/-- What is expected behind a command. -/
def commandForm (name : String) : Form :=
  if name = "highlight" then
    ⟨[⟨"language", some 'l', .value true⟩, ⟨"grammar", some 'g', .value false⟩,
      ⟨"document", some 'd', .flag⟩, ⟨"title", none, .value true⟩] ++ commonSwitches, 1, []⟩
  else ⟨commonSwitches, 0, []⟩

namespace Request

/-- The request to highlight, if it is complete. A title needs a page. -/
def ofGiven (given : Given) : Except Stop Request :=
  match given.others with
  | [] => .error (.failed .missingArguments)
  | filename :: _ =>
    let document := 0 < given.count "document"
    let title := given.value? "title"
    if title.isSome ∧ !document then .error (.failed .missingArguments)
    else .ok (.highlight
      ⟨filename, given.value? "language", given.value? "grammar", document, title⟩)

/-- The request of the command with the given name. -/
def ofCommand (name : String) (given : Given) : Except Stop Request :=
  match name with
  | "highlight" => ofGiven given
  | "languages" => .ok .languages
  | _ => .ok .stylesheet

end Request

namespace Invocation

/-- A request that takes the place of what was to be read for the named program. -/
def ofStop (program : String) : Stop → Except UsageError Invocation
  | .failed error => .error error
  | .version => .ok ⟨0, .version program⟩
  | .help => .ok ⟨0, .usage⟩

/-- Read a command line. -/
def read (arguments : List String) : Except UsageError Invocation :=
  match programForm.read {} arguments with
  | .error stop => ofStop programName stop
  | .ok (given, none) => .ok ⟨given.count "verbose", .usage⟩
  | .ok (given, some (name, rest)) =>
    let inner := do
      let (behind, _) ← (commandForm name).read {} rest
      let verbosity := behind.count "verbose"
      let request ← Request.ofCommand name behind
      return (⟨if verbosity = 0 then given.count "verbose" else verbosity, request⟩ : Invocation)
    match inner with
    | .error stop => ofStop (programName ++ "-" ++ name) stop
    | .ok invocation => .ok invocation

end Invocation

end Highlighter.Command

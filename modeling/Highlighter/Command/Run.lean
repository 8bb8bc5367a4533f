import Highlighter.Command.Request
import Highlighter.Grammar.File
import Highlighter.Page
import Highlighter.Registry
import Highlighter.Report

/-!
# Running a command

A command turns what can be read into an exit code and two texts. The work itself does not
depend on how much is to be told about it; its messages are sifted when it is done.

Highlighting a file takes its steps in a fixed order: read the file of the grammar, choose
a grammar, read the code, highlight it. The first step that fails is reported, and nothing
else is put out.
-/

namespace Highlighter.Command

/-- What a command leaves behind. -/
structure Outcome where
  code : Nat
  output : String
  errors : String
  deriving DecidableEq, Repr

/-- What is left to read, and what has been told. -/
structure Progress where
  inputs : Inputs
  log : List Message

/-- Work that reads, tells and may fail with a report. -/
abbrev Work := ExceptT String (StateM Progress)

/-- Tell something. -/
def tell (messages : List Message) : Work Unit :=
  modify fun progress => { progress with log := progress.log ++ messages }

/-- Read something. A failure is reported in the given words. -/
def obtain {Error Value : Type} (report : Error → String)
    (read : Inputs → Except Error Value × Inputs × List Message) : Work Value := do
  let progress ← get
  let (result, inputs, messages) := read progress.inputs
  set (⟨inputs, progress.log ++ messages⟩ : Progress)
  match result with
  | .ok value => return value
  | .error error => throw (report error)

/-- The registry of the grammars that are known without a description, and with them that
of the given file, if there is one. The name of the latter comes with it. -/
def registryWith (grammarFile : Option String) : Work (Registry × Option String) := do
  tell [Registry.empty.registration Grammar.dart]
  match grammarFile with
  | none => return (Registry.standard, none)
  | some filename =>
    let grammar ← obtain (Report.grammar filename) fun inputs => Grammar.load inputs filename
    tell [Registry.standard.registration grammar]
    return (Registry.standard.register grammar, some grammar.name)

/-- The language to highlight as: that of a grammar file before the one that was named.
Without either the name of the file decides. -/
def chosenLanguage (declared named : Option String) : Option String :=
  declared.orElse fun _ => named

/-- A grammar file has a language of its own, and another one was named. -/
def overruled (declared named : Option String) : List Message :=
  match declared, named with
  | some declared, some named =>
    if Registry.sameLetters declared named then [] else [.overruled declared named]
  | _, _ => []

/-- Highlight a file. -/
def highlightFile (options : Options) : Work String := do
  tell [.requested options.filename options.language options.grammarFile options.document]
  let (registry, declared) ← registryWith options.grammarFile
  tell (overruled declared options.language)
  let requested := chosenLanguage declared options.language
  match registry.choose? requested ⟨options.filename⟩ with
  | none => throw (Report.language options.filename requested)
  | some grammar =>
    tell [.chosen options.filename grammar.name]
    let source ← obtain Report.loading fun inputs => Source.load inputs options.filename
    let run := highlight grammar source
    tell run.log
    if let some error := run.error then throw (Report.highlighting options.filename error)
    if options.document then
      let page : Page := ⟨options.title.getD options.filename, grammar.name, run.content.content⟩
      tell [page.log]
      return page.render
    else return run.content.content

/-- A line for each language that is known without a description. -/
def listLanguages : Work String := do
  tell [Registry.empty.registration Grammar.dart]
  return String.join (Registry.standard.grammars.map fun grammar =>
    let padding := String.ofList (List.replicate (12 - grammar.name.length) ' ')
    let extensions := " ".intercalate (grammar.extensions.map ("." ++ ·))
    grammar.name ++ padding ++ " " ++ extensions ++ "\n")

/-- What is put out when nothing has been asked for. -/
def usageText : String :=
  "usage: " ++ programName ++ " [COMMAND] ...\nTry '--help' for more information.\n"

/-- The version of the program. -/
def versionText : String := "v0.1.0"

/-- Do what was asked for. -/
def Request.work : Request → Work String
  | .highlight options => highlightFile options
  | .languages => listLanguages
  | .stylesheet => return Highlighter.stylesheet
  | .usage => return usageText
  | .version program => return program ++ " " ++ versionText ++ "\n"

/-- The lines of a log that are shown at the given verbosity. -/
def shown (verbosity : Nat) (log : List Message) : String :=
  String.join ((log.filter fun message => message.level.rank ≤ verbosity).map
    fun message => message.line ++ "\n")

/-- Run a request. -/
def Invocation.run (inputs : Inputs) (invocation : Invocation) : Outcome :=
  let (result, progress) := invocation.request.work.run ⟨inputs, []⟩
  let lines := shown invocation.verbosity progress.log
  match result with
  | .ok output => ⟨0, output, lines⟩
  | .error report => ⟨1, "", lines ++ report ++ "\n"⟩

/-- Run the program with the given arguments. -/
def run (inputs : Inputs) (arguments : List String) : Outcome :=
  match Invocation.read arguments with
  | .error error => ⟨2, "", error.message⟩
  | .ok invocation => invocation.run inputs

end Highlighter.Command

import Highlighter.Proofs.Command.Omission
import Highlighter.Proofs.Command.Steps
import Highlighter.Proofs.Registry.Extensions

/-!
# What does not matter to a request

Two command lines that differ in one switch are the same without it. So what they ask for differs at
most in what that switch says, and a run shows the difference only where a step depends on it.

How much is to be told is no part of a request: it sifts the messages of work that is done. A named
language is part of one, but where a grammar file describes a grammar, that grammar is registered
last and asked for by its name, so it is found first, whatever the registry knew under that name and
whatever the name of the file says. No step behind the choice depends on the language.
-/

namespace Highlighter

namespace Command

/-- The command line without the switch of the long name, in front of a command and behind it. -/
def argumentsWithout (long : String) (arguments : List String) : List String :=
  programForm.without long
    (fun name rest => (commandForm name).without long (fun _ others => others) none rest)
    none arguments

/-- The arguments ask to highlight, and this is given behind the command. -/
inductive Gives (arguments : List String) (given : Given) : Prop where
  | behind {front : Given} {rest : List String} {command : Option (String × List String)}
      (begins : programForm.read {} arguments = .ok (front, some ("highlight", rest)))
      (ends : (commandForm "highlight").read {} rest = .ok (given, command))

/-- No command but the one to highlight leads to a request to highlight. -/
theorem name_of_highlight {name : String} {given : Given} {options : Options}
    (asks : Request.ofCommand name given = .ok (.highlight options)) :
    name = "highlight" ∧ Request.ofGiven given = .ok (.highlight options) := by
  unfold Request.ofCommand at asks
  split at asks
  · exact ⟨rfl, asks⟩
  · cases asks
  · cases asks

/-- A request to highlight comes from what is given behind the command. -/
theorem gives_of_read {arguments : List String} {verbosity : Nat} {options : Options}
    (asked : Invocation.read arguments = .ok ⟨verbosity, .highlight options⟩) :
    ∃ given, Gives arguments given ∧ Request.ofGiven given = .ok (.highlight options) := by
  unfold Invocation.read at asked
  split at asked
  · rename_i stop _
    cases stop <;> cases asked
  · cases asked
  · rename_i front name rest begins
    dsimp only at asked
    split at asked
    · rename_i stop _
      cases stop <;> cases asked
    · rename_i invocation made
      cases asked
      obtain ⟨⟨given, command⟩, ends, made⟩ := Attempt.bind_eq_ok_iff.mp made
      obtain ⟨request, asks, made⟩ := Attempt.bind_eq_ok_iff.mp made
      cases made
      obtain ⟨rfl, asks⟩ := name_of_highlight asks
      exact ⟨given, .behind begins ends, asks⟩

/-- The switches in front of a command have no hyphen as a letter. -/
theorem hyphenless_programForm : programForm.Hyphenless := by
  simp [Form.Hyphenless, programForm, commonSwitches]

/-- The switches behind the command have no hyphen as a letter. -/
theorem hyphenless_highlight : (commandForm "highlight").Hyphenless := by
  simp [Form.Hyphenless, commandForm, commonSwitches]

/-- Without a switch the arguments give the same apart from the switch. -/
theorem Gives.without {arguments : List String} {given : Given} (long : String)
    (gives : Gives arguments given) :
    Gives (argumentsWithout long arguments) (given.without long) := by
  obtain ⟨begins, ends⟩ := gives
  have start : Given.Behind long {} {} := .inl rfl
  exact .behind (Form.read_without hyphenless_programForm start begins)
    (Form.read_without hyphenless_highlight start ends)

/-- Arguments give one thing. -/
theorem Gives.unique {arguments : List String} {given other : Given}
    (gives : Gives arguments given) (also : Gives arguments other) : given = other := by
  obtain ⟨begins, ends⟩ := gives
  obtain ⟨alsoBegins, alsoEnds⟩ := also
  cases begins.symm.trans alsoBegins
  cases ends.symm.trans alsoEnds
  rfl

/-- The request is the same apart from a switch, if only the language depends on the switch. -/
theorem ofGiven_without {given : Given} {options : Options} {long : String}
    (free : long ∉ ["grammar", "document", "title"])
    (asks : Request.ofGiven given = .ok (.highlight options)) :
    Request.ofGiven (given.without long) = .ok (.highlight
      { options with language := (given.without long).value? "language" }) := by
  simp only [List.mem_cons, List.not_mem_nil, or_false, not_or] at free
  obtain ⟨grammar, document, title⟩ := free
  have same : (given.without long).others = given.others := rfl
  unfold Request.ofGiven at asks ⊢
  rw [same, Given.count_without (Ne.symm document), Given.value_without (Ne.symm title),
    Given.value_without (Ne.symm grammar)]
  cases others : given.others with
  | nil =>
    rw [others] at asks
    cases asks
  | cons filename rest =>
    rw [others] at asks
    dsimp only at asks ⊢
    split_ifs at asks ⊢ with untitled
    cases asks
    rfl

/-- The language of a request is the one that is given. -/
theorem language_of_ofGiven {given : Given} {options : Options}
    (asks : Request.ofGiven given = .ok (.highlight options)) :
    options.language = given.value? "language" := by
  unfold Request.ofGiven at asks
  split at asks
  · cases asks
  · dsimp only at asks
    split_ifs at asks
    cases asks
    rfl

section

variable {first second : List String} {verbosity verbosity' : Nat} {options options' : Options}
  {inputs : Inputs} {grammar : Grammar} {file : String}

/-- Command lines that are the same without a switch give the same apart from the switch, and ask
for the same apart from the language. -/
theorem same_apart_from_language {long : String} (free : long ∉ ["grammar", "document", "title"])
    (asked : Invocation.read first = .ok ⟨verbosity, .highlight options⟩)
    (asked' : Invocation.read second = .ok ⟨verbosity', .highlight options'⟩)
    (same : argumentsWithout long first = argumentsWithout long second) :
    ({ options with language := none } : Options) = { options' with language := none } ∧
    ∃ given given' : Given, options.language = given.value? "language" ∧
      options'.language = given'.value? "language" ∧ given.without long = given'.without long := by
  obtain ⟨given, gives, asks⟩ := gives_of_read asked
  obtain ⟨given', gives', asks'⟩ := gives_of_read asked'
  have left := gives.without long
  rw [same] at left
  have agree := left.unique (gives'.without long)
  refine ⟨?_, given, given', language_of_ofGiven asks, language_of_ofGiven asks', agree⟩
  have kept := ofGiven_without free asks
  rw [agree, ofGiven_without free asks'] at kept
  injection kept with request
  injection request with replaced
  exact congrArg (fun options : Options => { options with language := none }) replaced.symm

/-- Command lines that are the same without the switch for messages ask for the same. -/
theorem options_eq_of_verbosity
    (asked : Invocation.read first = .ok ⟨verbosity, .highlight options⟩)
    (asked' : Invocation.read second = .ok ⟨verbosity', .highlight options'⟩)
    (same : argumentsWithout "verbose" first = argumentsWithout "verbose" second) :
    options = options' := by
  obtain ⟨apart, given, given', language, language', agree⟩ :=
    same_apart_from_language (by decide) asked asked' same
  have kept (given : Given) : (given.without "verbose").value? "language" =
      given.value? "language" := Given.value_without (by decide)
  have languages : options.language = options'.language := by
    rw [language, language', ← kept given, agree, kept given']
  cases options
  cases options'
  simp_all

end

end Command

namespace Report

/-- What stands in front of what failed. -/
def front (filename : String) : String := mark ++ ": " ++ filename

/-- How the report of a language that was not found begins. -/
theorem language_begins (filename : String) (requested : Option String) :
    ∃ rest, (language filename requested).toList =
      (front filename).toList ++ (": \x1b[1mU".toList ++ rest) := by
  cases requested with
  | none =>
    refine ⟨"nable to determine language; use --language\x1b[0m".toList, ?_⟩
    simp [language, front, bold]
  | some name =>
    refine ⟨("nknown language\x1b[0m '" ++ name ++ "'").toList, ?_⟩
    simp [language, front, bold]

/-- How the report of code that could not be read begins. -/
theorem loading_begins (filename : String) (failure : ReadFailure) :
    ∃ rest, (loading (.ofFailure filename failure)).toList =
      (front filename).toList ++ (": \x1b[1mF".toList ++ rest) := by
  have loaded (problem details : String) :
      (loading ⟨"F" ++ problem, details, filename⟩).toList =
        (front filename).toList ++ (": \x1b[1mF".toList ++ (problem ++ "\x1b[0m").toList) := by
    simp [loading, front, bold]
  unfold LoadingError.ofFailure
  split_ifs
  · exact ⟨_, loaded "ailed reading standard input" failure.kind⟩
  · exact ⟨_, loaded "ile not found" ""⟩
  · exact ⟨_, loaded "ailed reading" failure.kind⟩

/-- The report of code that could not be read is no report of a language that was not found. -/
theorem loading_ne_language (filename : String) (failure : ReadFailure)
    (requested : Option String) :
    loading (.ofFailure filename failure) ≠ language filename requested := by
  intro same
  obtain ⟨rest, begins⟩ := loading_begins filename failure
  obtain ⟨other, begins'⟩ := language_begins filename requested
  rw [same, begins'] at begins
  have behind := List.append_cancel_left begins
  simp at behind

/-- A text without blanks at its ends is the front of the text, if no blank stands there. -/
theorem trimmed_front {text : String} {first : Char} (begins : text.toList.head? = some first)
    (visible : isBlank first = false) : (trimmed text).toList <+: text.toList := by
  obtain ⟨rest, shape⟩ := List.head?_eq_some_iff.mp begins
  rw [trimmed, String.toList_ofList, shape, List.dropWhile_cons_of_neg (by simp [visible])]
  exact List.rdropWhile_prefix _ _

/-- A report with an explanation is no report of a language that was not found. -/
theorem explained_ne_language (filename problem explanation : String)
    (requested : Option String) :
    explained filename problem explanation ≠ language filename requested := by
  intro same
  obtain ⟨rest, begins⟩ := language_begins filename requested
  have whole : (mark ++ ": " ++ filename ++ " " ++ bold problem ++ "\n\n" ++ explanation).toList =
      (front filename).toList ++ ' ' :: (bold problem ++ "\n\n" ++ explanation).toList := by
    simp [front]
  have marked : (mark ++ ": " ++ filename ++ " " ++ bold problem ++ "\n\n" ++
      explanation).toList.head? = some '\x1b' := by simp [mark]
  have shorter : (explained filename problem explanation).toList <+: _ :=
    trimmed_front marked (by decide)
  rw [whole, same, begins, List.prefix_append_right_inj] at shorter
  simp at shorter

end Report

namespace Command

namespace Options

variable {options : Options} {inputs : Inputs} {grammar : Grammar} {file report : String}

/-- A grammar that is described is selected, whatever language is asked for. -/
theorem selected_of_described (options : Options) (grammar : Grammar) :
    options.selected (some grammar) = .ok grammar := by
  have found : (Registry.standard.register grammar).choose? (some grammar.name)
      ⟨options.filename⟩ = some grammar := Registry.named_register _ grammar
  unfold selected
  simp only [Option.map_some, Option.getD_some, Option.some_or, found]

/-- With a grammar file that describes a grammar the steps are those with this grammar. -/
theorem steps_of_grammar (asks : options.grammarFile = some file)
    (describes : inputs.grammarAt file = .ok grammar) :
    options.steps inputs = options.applied inputs grammar := by
  have has : options.described inputs = .ok (some grammar) := by
    rw [described, asks]
    dsimp only
    rw [describes]
    rfl
  rw [steps, has]
  change (options.selected (some grammar) >>= options.applied inputs) = _
  rw [selected_of_described]
  rfl

/-- The steps with a given grammar do not depend on the language that is asked for. -/
theorem applied_eq_of_apart {other : Options}
    (same : ({ options with language := none } : Options) = { other with language := none })
    (inputs : Inputs) (grammar : Grammar) :
    options.applied inputs grammar = other.applied inputs grammar := by
  change ({ options with language := none } : Options).applied inputs grammar =
    ({ other with language := none } : Options).applied inputs grammar
  rw [same]

/-- Code that is not opened is not reported as code without a language. -/
theorem opened_report_ne (fails : options.opened inputs = .error report)
    (requested : Option String) : report ≠ Report.language options.filename requested := by
  unfold opened at fails
  cases read : inputs.textFor options.grammarFile.toList options.filename with
  | ok text =>
    rw [read] at fails
    cases fails
  | error failure =>
    rw [read] at fails
    cases fails
    exact Report.loading_ne_language _ failure requested

/-- Code that is not marked is not reported as code without a language. -/
theorem marked_report_ne {text : String} (fails : options.marked grammar text = .error report)
    (requested : Option String) : report ≠ Report.language options.filename requested := by
  unfold marked at fails
  dsimp only at fails
  cases ended : (highlight grammar (Entity.escapeText text)).error with
  | none =>
    rw [ended] at fails
    cases fails
  | some error =>
    rw [ended] at fails
    cases fails
    cases error <;> exact Report.explained_ne_language _ _ _ requested

/-- With a given grammar it is never reported that no language was found. -/
theorem applied_report_ne (fails : options.applied inputs grammar = .error report)
    (requested : Option String) : report ≠ Report.language options.filename requested := by
  rcases Attempt.bind_eq_error_iff.mp fails with unopened | ⟨text, _, fails⟩
  · exact opened_report_ne unopened requested
  · rcases Attempt.bind_eq_error_iff.mp fails with unmarked | ⟨markup, _, done⟩
    · exact marked_report_ne unmarked requested
    · cases done

end Options

/-- The run applies the grammar: its answer or its report is that of the steps with the grammar, and
the report is never that no language was found. -/
structure Applies (inputs : Inputs) (arguments : List String) (verbosity : Nat) (options : Options)
    (grammar : Grammar) : Prop where
  selects : options.selected (some grammar) = .ok grammar
  succeeds : (run inputs arguments).code = 0 →
    options.applied inputs grammar = .ok (run inputs arguments).output
  fails : (run inputs arguments).code ≠ 0 →
    ∃ report, options.applied inputs grammar = .error report ∧
      (run inputs arguments).errors =
        shown verbosity (told (highlightFile options) inputs) ++ report ++ "\n" ∧
      ∀ requested, report ≠ Report.language options.filename requested

section

variable {first second : List String} {verbosity verbosity' : Nat} {options options' : Options}
  {inputs : Inputs} {file : String} {grammar : Grammar}

/-- Requests with the same steps come to the same code and put out the same. -/
theorem run_same_of_steps
    (asked : Invocation.read first = .ok ⟨verbosity, .highlight options⟩)
    (asked' : Invocation.read second = .ok ⟨verbosity', .highlight options'⟩)
    (same : options.steps inputs = options'.steps inputs) :
    (run inputs first).code = (run inputs second).code ∧
    (run inputs first).output = (run inputs second).output := by
  rw [run_highlight_eq asked, run_highlight_eq asked', same]
  cases options'.steps inputs with
  | ok answer =>
    dsimp only
    exact ⟨rfl, rfl⟩
  | error report =>
    dsimp only
    exact ⟨rfl, rfl⟩

/-- A request with a grammar file applies the grammar that the file describes. -/
theorem applies_of_grammar
    (asked : Invocation.read first = .ok ⟨verbosity, .highlight options⟩)
    (asks : options.grammarFile = some file) (describes : inputs.grammarAt file = .ok grammar) :
    Applies inputs first verbosity options grammar := by
  have ran := run_highlight_eq asked inputs
  rw [Options.steps_of_grammar asks describes] at ran
  refine ⟨options.selected_of_described grammar, ?_, ?_⟩
  · intro code
    cases ended : options.applied inputs grammar with
    | ok answer =>
      rw [ended] at ran
      rw [ran]
    | error report =>
      rw [ended] at ran
      rw [ran] at code
      cases code
  · intro code
    cases ended : options.applied inputs grammar with
    | ok answer =>
      rw [ended] at ran
      rw [ran] at code
      exact absurd rfl code
    | error report =>
      rw [ended] at ran
      exact ⟨report, rfl, by rw [ran], Options.applied_report_ne ended⟩

/-- How much is told changes neither the code of a run nor what it puts out. Nor does the language
that is named if a grammar file describes a grammar: that grammar is applied, and it is never
reported that no language was found.

Proof: command lines that are the same without a switch ask for the same, apart from the language if
it is that switch. Requests that are the same have the same steps, and so have those with a
described grammar: it is selected whatever language is named, and no later step asks for one. -/
theorem verbosity_and_language_change_nothing
    (asked : Invocation.read first = .ok ⟨verbosity, .highlight options⟩)
    (asked' : Invocation.read second = .ok ⟨verbosity', .highlight options'⟩) (inputs : Inputs) :
    (argumentsWithout "verbose" first = argumentsWithout "verbose" second →
      (run inputs first).code = (run inputs second).code ∧
      (run inputs first).output = (run inputs second).output) ∧
    ∀ file grammar, options.grammarFile = some file → inputs.grammarAt file = .ok grammar →
      argumentsWithout "language" first = argumentsWithout "language" second →
        (run inputs first).code = (run inputs second).code ∧
        (run inputs first).output = (run inputs second).output ∧
        Applies inputs first verbosity options grammar ∧
        Applies inputs second verbosity' options' grammar := by
  constructor
  · intro same
    apply run_same_of_steps asked asked'
    rw [options_eq_of_verbosity asked asked' same]
  · intro file grammar asks describes same
    obtain ⟨apart, -⟩ := same_apart_from_language (by decide) asked asked' same
    have asks' : options'.grammarFile = some file :=
      (congrArg Options.grammarFile apart).symm.trans asks
    have steps : options.steps inputs = options'.steps inputs := by
      rw [Options.steps_of_grammar asks describes, Options.steps_of_grammar asks' describes,
        Options.applied_eq_of_apart apart]
    obtain ⟨code, output⟩ := run_same_of_steps asked asked' steps
    exact ⟨code, output, applies_of_grammar asked asks describes,
      applies_of_grammar asked' asks' describes⟩

/-- Telling more, at three places, and naming a language that is not known change nothing here. -/
theorem loud_and_unknown_change_nothing :
    Invocation.read ["highlight", "-g-", "a.dart"] =
        .ok ⟨0, .highlight { filename := "a.dart", grammarFile := some "-" }⟩ ∧
      Invocation.read ["-v", "highlight", "-vg-", "a.dart", "--verbose"] =
        .ok ⟨2, .highlight { filename := "a.dart", grammarFile := some "-" }⟩ ∧
      Invocation.read ["highlight", "-l", "none", "-g-", "a.dart"] =
        .ok ⟨0, .highlight
          { filename := "a.dart", language := some "none", grammarFile := some "-" }⟩ ∧
      (describingInputs (.ok "int a;")).grammarAt "-" = .ok { name := "plain", extensions := [] } ∧
      (run (describingInputs (.ok "int a;")) ["highlight", "-g-", "a.dart"]).output =
        (run (describingInputs (.ok "int a;"))
          ["-v", "highlight", "-vg-", "a.dart", "--verbose"]).output ∧
      (run (describingInputs (.ok "int a;")) ["highlight", "-g-", "a.dart"]).output =
        (run (describingInputs (.ok "int a;"))
          ["highlight", "-l", "none", "-g-", "a.dart"]).output := by
  have quiet : Invocation.read ["highlight", "-g-", "a.dart"] =
      .ok ⟨0, .highlight { filename := "a.dart", grammarFile := some "-" }⟩ := by
    decide +kernel
  have loud : Invocation.read ["-v", "highlight", "-vg-", "a.dart", "--verbose"] =
      .ok ⟨2, .highlight { filename := "a.dart", grammarFile := some "-" }⟩ := by
    decide +kernel
  have named : Invocation.read ["highlight", "-l", "none", "-g-", "a.dart"] =
      .ok ⟨0, .highlight
        { filename := "a.dart", language := some "none", grammarFile := some "-" }⟩ := by
    decide +kernel
  have describes : (describingInputs (.ok "int a;")).grammarAt "-" =
      .ok { name := "plain", extensions := [] } := by cbv
  have lessLoud : argumentsWithout "verbose" ["highlight", "-g-", "a.dart"] =
      argumentsWithout "verbose" ["-v", "highlight", "-vg-", "a.dart", "--verbose"] := by
    decide +kernel
  have lessNamed : argumentsWithout "language" ["highlight", "-g-", "a.dart"] =
      argumentsWithout "language" ["highlight", "-l", "none", "-g-", "a.dart"] := by
    decide +kernel
  obtain ⟨silent, -⟩ :=
    verbosity_and_language_change_nothing quiet loud (describingInputs (.ok "int a;"))
  obtain ⟨-, overruled⟩ :=
    verbosity_and_language_change_nothing quiet named (describingInputs (.ok "int a;"))
  obtain ⟨-, output⟩ := silent lessLoud
  obtain ⟨-, sameOutput, -⟩ := overruled "-" _ rfl describes lessNamed
  exact ⟨quiet, loud, named, describes, output, sameOutput⟩

end

end Command

end Highlighter

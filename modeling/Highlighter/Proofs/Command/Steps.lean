import Highlighter.Proofs.Attempt
import Highlighter.Proofs.Command.Work

/-!
# Highlighting a file is a composition of steps

A request to highlight a file takes four steps: it has the grammar of a grammar file if one is
given, selects a grammar, opens the code, and marks it. Each step is said here for itself, with what
it reads and the report of its failure. The command ends with the first step that fails and puts out
nothing but its report; if no step fails, it puts out the marked text or a page with it. In
particular nothing of a run that has failed half-way gets into what is put out.
-/

namespace Highlighter.Command

namespace Options

/-- The grammar that the grammar file describes, if one is given. -/
def described (options : Options) (inputs : Inputs) : Except String (Option Grammar) :=
  match options.grammarFile with
  | none => .ok none
  | some filename =>
    ((inputs.grammarAt filename).mapError (Report.grammar filename)).map some

/-- The grammar that is chosen among those that are known, with the described one if there is one.
The name of the latter is asked for before the language that was named; without both the name of
the file decides. -/
def selected (options : Options) (described : Option Grammar) : Except String Grammar :=
  let registry := (described.map Registry.standard.register).getD Registry.standard
  let requested := (described.map Grammar.name).or options.language
  match registry.choose? requested ⟨options.filename⟩ with
  | some grammar => .ok grammar
  | none => .error (Report.language options.filename requested)

/-- The code. The grammar file has been read before it. -/
def opened (options : Options) (inputs : Inputs) : Except String String :=
  (inputs.textFor options.grammarFile.toList options.filename).mapError fun failure =>
    Report.loading (.ofFailure options.filename failure)

/-- The code in the form of a page, marked by the grammar. -/
def marked (options : Options) (grammar : Grammar) (text : String) : Except String String :=
  let run := highlight grammar (Entity.escapeText text)
  match run.error with
  | none => .ok run.content
  | some error => .error (Report.highlighting options.filename error)

/-- What is put out: the marked text, or the page with it under the title or else the name of the
file. -/
def answer (options : Options) (grammar : Grammar) (markup : String) : String :=
  if options.document then
    Page.render ⟨options.title.getD options.filename, grammar.name, markup⟩
  else markup

/-- The steps behind the choice of a grammar. -/
def applied (options : Options) (inputs : Inputs) (grammar : Grammar) : Except String String := do
  let text ← options.opened inputs
  let markup ← options.marked grammar text
  return options.answer grammar markup

/-- The steps one after another. -/
def steps (options : Options) (inputs : Inputs) : Except String String := do
  let described ← options.described inputs
  let grammar ← options.selected described
  options.applied inputs grammar

/-- All steps succeed, with this grammar and this marked text. -/
inductive Succeeds (options : Options) (inputs : Inputs) (grammar : Grammar) (markup : String) :
    Prop where
  | all {described : Option Grammar} {text : String}
      (has : options.described inputs = .ok described)
      (selects : options.selected described = .ok grammar)
      (opens : options.opened inputs = .ok text)
      (marks : options.marked grammar text = .ok markup)

/-- A step fails with this report, and the steps before it succeed. -/
inductive FirstFailure (options : Options) (inputs : Inputs) (report : String) : Prop where
  | grammarFile (fails : options.described inputs = .error report)
  | selection {described : Option Grammar} (has : options.described inputs = .ok described)
      (fails : options.selected described = .error report)
  | opening {described : Option Grammar} {grammar : Grammar}
      (has : options.described inputs = .ok described)
      (selects : options.selected described = .ok grammar)
      (fails : options.opened inputs = .error report)
  | marking {described : Option Grammar} {grammar : Grammar} {text : String}
      (has : options.described inputs = .ok described)
      (selects : options.selected described = .ok grammar)
      (opens : options.opened inputs = .ok text)
      (fails : options.marked grammar text = .error report)

variable {options : Options} {inputs : Inputs}

/-- The steps come to an answer if all of them succeed, or to the report of the first that fails. -/
theorem steps_cases (options : Options) (inputs : Inputs) :
    (∃ grammar markup, options.Succeeds inputs grammar markup ∧
      options.steps inputs = .ok (options.answer grammar markup)) ∨
    ∃ report, options.FirstFailure inputs report ∧ options.steps inputs = .error report := by
  cases ended : options.steps inputs with
  | ok answer =>
    obtain ⟨described, has, behind⟩ := Attempt.bind_eq_ok_iff.mp ended
    obtain ⟨grammar, selects, behind⟩ := Attempt.bind_eq_ok_iff.mp behind
    obtain ⟨text, opens, behind⟩ := Attempt.bind_eq_ok_iff.mp behind
    obtain ⟨markup, marks, behind⟩ := Attempt.bind_eq_ok_iff.mp behind
    cases behind
    exact .inl ⟨grammar, markup, .all has selects opens marks, rfl⟩
  | error report =>
    refine .inr ⟨report, ?_, rfl⟩
    rcases Attempt.bind_eq_error_iff.mp ended with fails | ⟨described, has, behind⟩
    · exact .grammarFile fails
    rcases Attempt.bind_eq_error_iff.mp behind with fails | ⟨grammar, selects, behind⟩
    · exact .selection has fails
    rcases Attempt.bind_eq_error_iff.mp behind with fails | ⟨text, opens, behind⟩
    · exact .opening has selects fails
    rcases Attempt.bind_eq_error_iff.mp behind with fails | ⟨markup, marks, behind⟩
    · exact .marking has selects opens fails
    · cases behind

/-- If all steps succeed, they come to the answer. -/
theorem Succeeds.steps_eq {grammar : Grammar} {markup : String}
    (succeeds : options.Succeeds inputs grammar markup) :
    options.steps inputs = .ok (options.answer grammar markup) := by
  obtain ⟨has, selects, opens, marks⟩ := succeeds
  refine Attempt.bind_eq_ok_iff.mpr ⟨_, has, Attempt.bind_eq_ok_iff.mpr ⟨_, selects, ?_⟩⟩
  exact Attempt.bind_eq_ok_iff.mpr ⟨_, opens, Attempt.bind_eq_ok_iff.mpr ⟨_, marks, rfl⟩⟩

end Options

/-- With a grammar file the registry has its grammar too, and its name is known; without one there
are only the grammars known before. -/
theorem registryWith_yields (options : Options) (inputs : Inputs) :
    Yields (registryWith options.grammarFile) inputs
      ((options.described inputs).map fun described =>
        ((described.map Registry.standard.register).getD Registry.standard,
          described.map Grammar.name))
      (options.grammarFile.elim inputs inputs.after) := by
  unfold registryWith Options.described
  refine .bind (.tell _ _) ?_
  cases options.grammarFile with
  | none => exact .pure _ _
  | some filename =>
    obtain ⟨told, loaded⟩ := Grammar.load_eq inputs filename
    have reads : Yields
        (obtain (Report.grammar filename) fun inputs => Grammar.load inputs filename) inputs
        ((inputs.grammarAt filename).mapError (Report.grammar filename)) (inputs.after filename) :=
      .obtain _ loaded
    dsimp only
    cases found : inputs.grammarAt filename with
    | error error =>
      rw [found] at reads
      exact .bind_error _ reads
    | ok grammar =>
      rw [found] at reads
      exact .bind reads (.bind (.tell _ _) (.pure _ _))

/-- What is left behind the grammar file is opened as the code. -/
theorem source_yields (options : Options) (inputs : Inputs) :
    Yields (obtain Report.loading fun inputs => Source.load inputs options.filename)
      (options.grammarFile.elim inputs inputs.after)
      ((options.opened inputs).map fun text => ⟨options.filename, Entity.escapeText text⟩)
      ((options.grammarFile.elim inputs inputs.after).after options.filename) := by
  have same : (options.grammarFile.elim inputs inputs.after).textFor [] options.filename =
      inputs.textFor options.grammarFile.toList options.filename := by
    cases options.grammarFile with
    | none => rfl
    | some filename => exact inputs.textFor_after filename options.filename
  obtain ⟨told, loaded⟩ :=
    Source.load_eq (options.grammarFile.elim inputs inputs.after) options.filename
  rw [same] at loaded
  unfold Options.opened
  have reads : Yields (obtain Report.loading fun inputs => Source.load inputs options.filename)
      (options.grammarFile.elim inputs inputs.after)
      ((((inputs.textFor options.grammarFile.toList options.filename).mapError
        (.ofFailure options.filename)).map fun text =>
          (⟨options.filename, Entity.escapeText text⟩ : Source)).mapError Report.loading)
      ((options.grammarFile.elim inputs inputs.after).after options.filename) :=
    .obtain _ loaded
  cases found : inputs.textFor options.grammarFile.toList options.filename with
  | error failure =>
    rw [found] at reads
    exact reads
  | ok text =>
    rw [found] at reads
    exact reads

/-- The language that is asked for is that of the grammar file before the one that was named. -/
theorem chosenLanguage_eq_or (declared named : Option String) :
    chosenLanguage declared named = declared.or named := by
  cases declared <;> rfl

/-- Highlighting a file comes to what its steps come to.

Proof: the work is followed from message to message. Between them it has the grammar file, selects,
opens and marks, and each of these ends it with the report that the step has. -/
theorem highlightFile_ends (options : Options) (inputs : Inputs) :
    Ends (highlightFile options) inputs (options.steps inputs) := by
  unfold highlightFile Options.steps Options.applied
  refine (Yields.tell _ _).ends_bind ((registryWith_yields options inputs).ends_step ?_)
  intro described _
  refine (Yields.tell _ _).ends_bind ?_
  -- The choice is no work of its own: it is made between two messages.
  unfold Options.selected
  rw [chosenLanguage_eq_or]
  dsimp only
  generalize Registry.choose? _ ((described.map Grammar.name).or options.language) _ = chosen
  cases chosen with
  | none => exact (Yields.throw _ _).ends
  | some grammar =>
    refine (Yields.tell _ _).ends_bind ((source_yields options inputs).ends_step ?_)
    intro text _
    rw [highlight_held]
    refine (Yields.tell _ _).ends_bind ?_
    unfold Options.marked
    dsimp only [Source.text_eq, RunOn.heldBy]
    cases (highlight grammar (Entity.escapeText text)).error with
    | some error => exact ⟨_, (Yields.throw _ _).bind_error _⟩
    | none =>
      change Ends _ _ (.ok (options.answer grammar _))
      unfold Options.answer
      dsimp only
      by_cases document : options.document
      · rw [if_pos document, if_pos document]
        exact (Yields.tell _ _).ends_bind (Yields.pure _ _).ends
      · rw [if_neg document, if_neg document]
        exact (Yields.pure _ _).ends

/-- A run that highlights a file puts out the answer of its steps, or else nothing, and then the
report of the step that failed stands behind the messages that are shown. -/
theorem run_highlight_eq {arguments : List String} {verbosity : Nat} {options : Options}
    (asked : Invocation.read arguments = .ok ⟨verbosity, .highlight options⟩) (inputs : Inputs) :
    run inputs arguments =
      match options.steps inputs with
      | .ok answer => ⟨0, answer, shown verbosity (told (highlightFile options) inputs)⟩
      | .error report =>
        ⟨1, "", shown verbosity (told (highlightFile options) inputs) ++ report ++ "\n"⟩ := by
  obtain ⟨left, yields⟩ := highlightFile_ends options inputs
  obtain ⟨messages, ran⟩ := yields []
  have all : told (highlightFile options) inputs = messages := by rw [told, ran]; rfl
  have worked : (Request.highlight options).work.run ⟨inputs, []⟩ =
      (options.steps inputs, ⟨left, messages⟩) := ran
  rw [run, asked, all]
  dsimp only
  cases ended : options.steps inputs with
  | ok answer =>
    rw [ended] at worked
    simp only [Invocation.run, worked]
  | error report =>
    rw [ended] at worked
    simp only [Invocation.run, worked]

/-- The command is the composition of its steps. Its code is 0 exactly if all of them succeed in
their order, and then the answer is put out. Otherwise its code is 1, nothing is put out, and the
report of the first step that fails stands behind the messages that are shown.

Proof: the steps either all succeed or one is the first to fail, and the run is what they come
to. -/
theorem highlight_composes_steps {arguments : List String} {verbosity : Nat} {options : Options}
    (asked : Invocation.read arguments = .ok ⟨verbosity, .highlight options⟩) (inputs : Inputs) :
    ((run inputs arguments).code = 0 ↔
      ∃ grammar markup, options.Succeeds inputs grammar markup) ∧
    (∀ grammar markup, options.Succeeds inputs grammar markup →
      (run inputs arguments).output = options.answer grammar markup) ∧
    ((run inputs arguments).code ≠ 0 →
      (run inputs arguments).code = 1 ∧ (run inputs arguments).output = "" ∧
      ∃ report, options.FirstFailure inputs report ∧
        (run inputs arguments).errors =
          shown verbosity (told (highlightFile options) inputs) ++ report ++ "\n") := by
  have ran := run_highlight_eq asked inputs
  rcases options.steps_cases inputs with
    ⟨grammar, markup, succeeds, ended⟩ | ⟨report, failed, ended⟩
  · rw [ended] at ran
    refine ⟨?_, ?_, ?_⟩
    · exact ⟨fun _ => ⟨grammar, markup, succeeds⟩, fun _ => by rw [ran]⟩
    · intro other marked also
      have same := also.steps_eq.symm.trans ended
      rw [ran]
      exact (Except.ok.inj same).symm
    · intro failed
      exact absurd (by rw [ran]) failed
  · rw [ended] at ran
    have unsuccessful : ∀ grammar markup, ¬ options.Succeeds inputs grammar markup := by
      intro grammar markup succeeds
      have same := succeeds.steps_eq.symm.trans ended
      contradiction
    refine ⟨⟨?_, ?_⟩, ?_, ?_⟩
    · intro code
      rw [ran] at code
      contradiction
    · rintro ⟨grammar, markup, succeeds⟩
      exact absurd succeeds (unsuccessful grammar markup)
    · intro grammar markup succeeds
      exact absurd succeeds (unsuccessful grammar markup)
    · intro _
      rw [ran]
      exact ⟨rfl, rfl, report, failed, rfl⟩

/-- A description of a grammar without patterns on the standard input, and files that all hold the
given code or cannot be read. -/
def describingInputs (code : Except ReadFailure String) : Inputs :=
  ⟨fun _ => code, .ok "name = \"plain\""⟩

/-- A page with code from a file and a grammar from the standard input. If there is no such file,
nothing is put out, though the grammar has been read. -/
theorem described_input_puts_out_page :
    Invocation.read ["highlight", "-dg-", "a.dart"] =
        .ok ⟨0, .highlight { filename := "a.dart", grammarFile := some "-", document := true }⟩ ∧
      (run (describingInputs (.ok "a < b")) ["highlight", "-dg-", "a.dart"]).code = 0 ∧
      (run (describingInputs (.ok "a < b")) ["highlight", "-dg-", "a.dart"]).output =
        Page.render ⟨"a.dart", "plain", "a &lt; b"⟩ ∧
      (run (describingInputs (.error .notFound)) ["highlight", "-dg-", "a.dart"]).output = "" := by
  have asked : Invocation.read ["highlight", "-dg-", "a.dart"] =
      .ok ⟨0, .highlight { filename := "a.dart", grammarFile := some "-", document := true }⟩ := by
    decide +kernel
  have describes (code : Except ReadFailure String) :
      ({ filename := "a.dart", grammarFile := some "-", document := true } : Options).described
        (describingInputs code) = .ok (some { name := "plain", extensions := [] }) := by
    cbv
  have succeeds : Options.Succeeds
      { filename := "a.dart", grammarFile := some "-", document := true }
      (describingInputs (.ok "a < b")) { name := "plain", extensions := [] } "a &lt; b" :=
    .all (describes _) rfl rfl rfl
  obtain ⟨success, puts, -⟩ := highlight_composes_steps asked (describingInputs (.ok "a < b"))
  obtain ⟨complete, -, fails⟩ :=
    highlight_composes_steps asked (describingInputs (.error .notFound))
  have failed : (run (describingInputs (.error .notFound)) ["highlight", "-dg-", "a.dart"]).code ≠
      0 := by
    intro code
    obtain ⟨grammar, markup, -, -, opens, -⟩ := complete.mp code
    cases opens
  have page := puts _ _ succeeds
  rw [Options.answer, if_pos rfl] at page
  exact ⟨asked, success.mpr ⟨_, _, succeeds⟩, page, (fails failed).2.1⟩

end Highlighter.Command

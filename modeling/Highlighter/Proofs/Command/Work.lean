import Highlighter.Command.Run
import Highlighter.Proofs.Highlight.Passes
import Mathlib

/-!
# What work comes to

Work reads, tells and may fail. What it comes to does not depend on what has been told before: it
yields a result and leaves something to read, and it only adds to what has been told. The rules
below give this for each way in which work is put together, so that a command can be followed from
step to step without its log.

A step that names the standard input reads it to its end; a later step that names it finds an empty
text. So what a step reads is decided by what can be read at all and by the names before it.
-/

namespace Highlighter

namespace Inputs

/-- The text under a name, for a step behind others that have read the given names. -/
def textFor (inputs : Inputs) (earlier : List String) (filename : String) :
    Except ReadFailure String :=
  if filename = standardName then
    if standardName ∈ earlier then .ok "" else inputs.standard
  else inputs.file filename

/-- What is left to read when the text under a name has been read. -/
def after (inputs : Inputs) (filename : String) : Inputs :=
  if filename = standardName then { inputs with standard := .ok "" } else inputs

/-- What has been read once is read as after the name. -/
theorem textFor_after (inputs : Inputs) (earlier filename : String) :
    (inputs.after earlier).textFor [] filename = inputs.textFor [earlier] filename := by
  by_cases standard : earlier = standardName
  · simp [after, textFor, standard]
  · have different : standardName ≠ earlier := fun same => standard same.symm
    simp [after, textFor, standard, different]

end Inputs

/-- A read failure as it is reported for a name. -/
def LoadingError.ofFailure (filename : String) (failure : ReadFailure) : LoadingError :=
  if filename = Inputs.standardName then
    ⟨"Failed reading standard input", failure.kind, filename⟩
  else if failure = .notFound then ⟨"File not found", "", filename⟩
  else ⟨"Failed reading", failure.kind, filename⟩

namespace Inputs

/-- Loading gives the text under a name, or the failure to read it, and leaves the rest. -/
theorem load_eq (inputs : Inputs) (filename : String) :
    ∃ told, inputs.load filename =
      ⟨(inputs.textFor [] filename).mapError (LoadingError.ofFailure filename),
        inputs.after filename, told⟩ := by
  unfold load textFor after LoadingError.ofFailure
  by_cases standard : filename = standardName
  · rw [if_pos standard, if_pos standard, if_pos standard]
    cases inputs.standard with
    | ok text => exact ⟨_, rfl⟩
    | error failure => exact ⟨_, by simp [Except.mapError, standard]; rfl⟩
  · rw [if_neg standard, if_neg standard, if_neg standard]
    cases inputs.file filename with
    | ok text => exact ⟨_, rfl⟩
    | error failure =>
      cases failure <;> exact ⟨_, by simp [Except.mapError, standard]; rfl⟩

/-- The grammar that is described under a name. -/
def grammarAt (inputs : Inputs) (filename : String) : Except GrammarError Grammar :=
  match inputs.textFor [] filename with
  | .error failure =>
    .error (.unreadable (filename ++ ": " ++ (LoadingError.ofFailure filename failure).message))
  | .ok text => (Grammar.parse text).map Prod.fst

end Inputs

/-- A grammar is loaded from the text under its name. -/
theorem Grammar.load_eq (inputs : Inputs) (filename : String) :
    ∃ told, Grammar.load inputs filename =
      (inputs.grammarAt filename, inputs.after filename, told) := by
  obtain ⟨told, loaded⟩ := inputs.load_eq filename
  unfold Grammar.load Inputs.grammarAt
  rw [loaded]
  cases inputs.textFor [] filename with
  | error failure => exact ⟨_, rfl⟩
  | ok text =>
    cases parsed : Grammar.parse text with
    | error error => exact ⟨told, by simp [Except.mapError, Except.map, parsed]⟩
    | ok result =>
      obtain ⟨grammar, log⟩ := result
      exact ⟨told ++ log, by simp [Except.mapError, Except.map, parsed]⟩

/-- Code is the text under its name, escaped. -/
theorem Source.load_eq (inputs : Inputs) (filename : String) :
    ∃ told, Source.load inputs filename =
      (((inputs.textFor [] filename).mapError (LoadingError.ofFailure filename)).map fun text =>
        ⟨filename, Entity.escapeText text⟩, inputs.after filename, told) := by
  obtain ⟨told, loaded⟩ := inputs.load_eq filename
  unfold Source.load
  rw [loaded]
  cases inputs.textFor [] filename with
  | error failure => exact ⟨_, rfl⟩
  | ok text => exact ⟨_, rfl⟩

/-- The text of a source is its code. -/
@[simp] theorem Source.text_eq (source : Source) : Content.text source = source.content := rfl

instance : LawfulContent Source where
  text_replace _ _ := rfl
  replace_text _ := rfl
  replace_replace _ _ _ := rfl

namespace Command

variable {Value Next : Type}

/-- Work that is followed by more goes on with the value that it has, or ends with its report. -/
theorem run_bind (first : Work Value) (next : Value → Work Next) (progress : Progress) :
    (first >>= next).run progress =
      match first.run progress with
      | (.ok value, further) => (next value).run further
      | (.error report, further) => (.error report, further) := by
  change (match first.run progress with
    | (result, further) => ExceptT.bindCont next result further) = _
  rcases first.run progress with ⟨report | value, further⟩ <;> rfl

/-- Reading takes what is read, and tells what comes with it. -/
theorem run_obtain {Error : Type} (report : Error → String)
    (read : Inputs → Except Error Value × Inputs × List Message) (inputs : Inputs)
    (log : List Message) :
    (obtain report read).run ⟨inputs, log⟩ =
      ((read inputs).1.mapError report, ⟨(read inputs).2.1, log ++ (read inputs).2.2⟩) := by
  have got : (get : Work Progress).run ⟨inputs, log⟩ = (.ok ⟨inputs, log⟩, ⟨inputs, log⟩) := rfl
  rw [obtain, run_bind, got]
  dsimp only
  rcases read inputs with ⟨error | value, left, told⟩ <;> rfl

/-- The work yields the result and leaves the rest to read, whatever has been told before. What it
tells is added. -/
def Yields (work : Work Value) (inputs : Inputs) (result : Except String Value) (left : Inputs) :
    Prop :=
  ∀ log, ∃ told, work.run ⟨inputs, log⟩ = (result, ⟨left, log ++ told⟩)

namespace Yields

variable {inputs middle left : Inputs}

theorem pure (value : Value) (inputs : Inputs) :
    Yields (pure value) inputs (.ok value) inputs :=
  fun log => ⟨[], by rw [List.append_nil]; rfl⟩

theorem throw (report : String) (inputs : Inputs) :
    Yields (throw report : Work Value) inputs (.error report) inputs :=
  fun log => ⟨[], by rw [List.append_nil]; rfl⟩

theorem tell (messages : List Message) (inputs : Inputs) :
    Yields (tell messages) inputs (.ok ()) inputs :=
  fun _ => ⟨messages, rfl⟩

/-- Reading yields what is read, or the report of the failure. -/
theorem obtain {Error : Type} (report : Error → String)
    {read : Inputs → Except Error Value × Inputs × List Message} {result : Except Error Value}
    {told : List Message} (reads : read inputs = (result, left, told)) :
    Yields (obtain report read) inputs (result.mapError report) left :=
  fun log => ⟨told, by rw [run_obtain, reads]⟩

/-- Work that succeeds is followed by what comes next, on what it leaves. -/
theorem bind {first : Work Value} {next : Value → Work Next} {value : Value}
    {result : Except String Next} (begun : Yields first inputs (.ok value) middle)
    (followed : Yields (next value) middle result left) :
    Yields (first >>= next) inputs result left := by
  intro log
  obtain ⟨told, ran⟩ := begun log
  obtain ⟨more, ended⟩ := followed (log ++ told)
  refine ⟨told ++ more, ?_⟩
  rw [run_bind, ran, ← List.append_assoc]
  exact ended

/-- Work that fails is followed by nothing. -/
theorem bind_error {first : Work Value} (next : Value → Work Next) {report : String}
    (failed : Yields first inputs (.error report) left) :
    Yields (first >>= next) inputs (.error report) left := by
  intro log
  obtain ⟨told, ran⟩ := failed log
  exact ⟨told, by rw [run_bind, ran]⟩

end Yields

/-- What the work tells from its beginning to its end. -/
def told (work : Work Value) (inputs : Inputs) : List Message :=
  (work.run ⟨inputs, []⟩).2.log

/-- The work ends with the result, whatever is left to read and has been told. -/
def Ends (work : Work Value) (inputs : Inputs) (result : Except String Value) : Prop :=
  ∃ left, Yields work inputs result left

namespace Yields

variable {inputs middle left : Inputs}

/-- Work that yields a result ends with it. -/
theorem ends {work : Work Value} {result : Except String Value}
    (yields : Yields work inputs result left) : Ends work inputs result :=
  ⟨left, yields⟩

/-- Behind work that succeeds the end is that of what comes next. -/
theorem ends_bind {first : Work Value} {next : Value → Work Next} {value : Value}
    {result : Except String Next} (begun : Yields first inputs (.ok value) middle)
    (followed : Ends (next value) middle result) : Ends (first >>= next) inputs result := by
  obtain ⟨left, ended⟩ := followed
  exact ⟨left, begun.bind ended⟩

/-- A step of work comes to a step that can fail, and what follows the one to what follows the
other. -/
theorem ends_step {Step : Type} {first : Work Value} {next : Value → Work Next}
    {step : Except String Step} {value : Step → Value} {following : Step → Except String Next}
    (begun : Yields first inputs (step.map value) middle)
    (followed : ∀ taken, step = .ok taken → Ends (next (value taken)) middle (following taken)) :
    Ends (first >>= next) inputs (step >>= following) := by
  cases step with
  | error report => exact ⟨middle, begun.bind_error next⟩
  | ok taken => exact begun.ends_bind (followed taken rfl)

end Yields

end Command

end Highlighter

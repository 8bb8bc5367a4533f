import Highlighter.Highlight

/-!
# What a pass and a run come to

The inversion of a single pass, and the law that a plan cut in two runs as its parts run
one after the other. A failing part ends the run: what follows it is not looked at. Later
laws of runs are derived from these and do not open the recursion over the plan again.

A holder that gives back the text which has been put into it has no part in a run: the run is
that on its text, and the text which comes of it is put back. So the laws that are stated of
strings hold for every such holder.
-/

namespace Highlighter

variable {Holder Renderer : Type}

/-- One run after another, unless the first has failed. -/
def RunOn.andThen (first : RunOn Holder) (next : Holder → RunOn Holder) : RunOn Holder :=
  if first.error.isSome then first
  else
    let second := next first.content
    ⟨second.content, first.log ++ second.log, first.writes ++ second.writes, second.error⟩

/-- Nothing is done behind a failure. -/
theorem RunOn.and_then_failed {first : RunOn Holder} {next : Holder → RunOn Holder}
    {error : HighlightError} (failed : first.error = some error) : first.andThen next = first := by
  simp [andThen, failed]

/-- Behind a run without failure the content and the error are those of the next run. -/
theorem RunOn.and_then_completed {first : RunOn Holder} {next : Holder → RunOn Holder}
    (completed : first.error = none) :
    first.andThen next =
      ⟨(next first.content).content, first.log ++ (next first.content).log,
        first.writes ++ (next first.content).writes, (next first.content).error⟩ := by
  simp [andThen, completed]

/-- Behind a run without failure, what is left behind and the error are those of the next run. -/
theorem RunOn.and_then_ends {first : RunOn Holder} (next : Holder → RunOn Holder)
    (completed : first.error = none) :
    (first.andThen next).content = (next first.content).content ∧
      (first.andThen next).error = (next first.content).error := by
  rw [and_then_completed completed]
  exact ⟨rfl, rfl⟩

/-- Runs can be put in brackets in either way. -/
theorem RunOn.and_then_assoc (first : RunOn Holder) (next later : Holder → RunOn Holder) :
    (first.andThen next).andThen later =
      first.andThen fun content => (next content).andThen later := by
  cases former : first.error with
  | some error => rw [and_then_failed former, and_then_failed former, and_then_failed former]
  | none =>
    cases latter : (next first.content).error with
    | some error => simp [andThen, former, latter]
    | none => simp [andThen, former, latter, List.append_assoc]

variable [Content Holder] [Render Renderer]

/-- The run of a pass that has completed: it writes only if it has marked something. -/
def RunOn.ofPass (category : Category) (content : Holder) (marked : String) (count : Nat) :
    RunOn Holder :=
  if count = 0 then ⟨content, [.passed category 0], [], none⟩
  else ⟨Content.replace content marked, [.passed category count], [marked], none⟩

namespace Highlight

/-- The pattern compiles for searches in the content and all its searches end. -/
def Completes (pattern : Pattern) (content : String) : Prop :=
  ∃ regex, pattern.compile (Pattern.searchLimit content) = .ok regex ∧
    (regex.scan content.toList).problem = none

/-- The way in which the pattern fails on the content: it does not compile with the limit of
this content, or a search with it is given up. -/
inductive Fails (category : Category) (pattern : Pattern) (content : String) :
    HighlightError → Prop where
  | invalidPattern {problem : Regex.Problem}
      (refused : pattern.compile (Pattern.searchLimit content) = .error problem) :
      Fails category pattern content (.invalidPattern category pattern.source problem)
  | matchFailed {regex : Regex} {problem : Regex.Problem}
      (compiled : pattern.compile (Pattern.searchLimit content) = .ok regex)
      (givenUp : (regex.scan content.toList).problem = some problem) :
      Fails category pattern content (.matchFailed category pattern.source problem)

/-- The error of a failing pattern names its category. -/
theorem Fails.category_eq {category : Category} {pattern : Pattern} {content : String}
    {error : HighlightError} (fails : Fails category pattern content error) :
    error.category = category := by
  cases fails <;> rfl

/-- The error of a failing pattern shows the pattern as it is written. -/
theorem Fails.pattern_eq {category : Category} {pattern : Pattern} {content : String}
    {error : HighlightError} (fails : Fails category pattern content error) :
    error.pattern = pattern.source := by
  cases fails <;> rfl

/-- A pass either completes, and then marks what its scan has found, or fails. -/
theorem pass_cases (renderer : Renderer) (category : Category) (pattern : Pattern)
    (content : String) :
    (∃ regex, pattern.compile (Pattern.searchLimit content) = .ok regex ∧
      (regex.scan content.toList).problem = none ∧
      pass renderer category pattern content =
        .ok ((regex.scan content.toList).marked.length,
          String.ofList ((regex.scan content.toList).withMarkup renderer category))) ∨
    (∃ error, Fails category pattern content error ∧
      pass renderer category pattern content = .error error) := by
  cases compiled : pattern.compile (Pattern.searchLimit content) with
  | error problem =>
    exact .inr ⟨_, .invalidPattern compiled, by simp [pass, compiled]⟩
  | ok regex =>
    cases ended : (regex.scan content.toList).problem with
    | none => exact .inl ⟨regex, rfl, ended, by simp [pass, compiled, ended]⟩
    | some problem => exact .inr ⟨_, .matchFailed compiled ended, by simp [pass, compiled, ended]⟩

/-- What an entry of the plan comes to by itself, unless it fails: a category without a
pattern is only told about, and a pass that has completed writes only if it has marked
something. -/
inductive Settles (renderer : Renderer) (content : Holder) :
    Category × Option Pattern → RunOn Holder → Prop where
  | skipped {category : Category} {entry : Option Pattern} (absent : active? entry = none) :
      Settles renderer content (category, entry) ⟨content, [.skipped category], [], none⟩
  | completed {category : Category} {pattern : Pattern} {regex : Regex}
      (present : pattern.isEmpty = false)
      (compiled : pattern.compile (Pattern.searchLimit (Content.text content)) = .ok regex)
      (ended : (regex.scan (Content.text content).toList).problem = none) :
      Settles renderer content (category, some pattern)
        (RunOn.ofPass category content
          (String.ofList ((regex.scan (Content.text content).toList).withMarkup renderer category))
          (regex.scan (Content.text content).toList).marked.length)

/-- An entry that settles has no error. -/
theorem Settles.error_none {renderer : Renderer} {content : Holder}
    {head : Category × Option Pattern} {first : RunOn Holder}
    (settles : Settles renderer content head first) : first.error = none := by
  cases settles with
  | skipped absent => rfl
  | completed present compiled ended =>
    unfold RunOn.ofPass
    split <;> rfl

/-- Only a pattern that is not empty is applied. -/
theorem active_some_iff {entry : Option Pattern} {pattern : Pattern} :
    active? entry = some pattern ↔ entry = some pattern ∧ pattern.isEmpty = false := by
  simp [active?, Option.filter_eq_some_iff]

/-- A pattern that settles completes. -/
theorem Settles.completes {renderer : Renderer} {content : Holder} {category : Category}
    {pattern : Pattern} {first : RunOn Holder}
    (settles : Settles renderer content (category, some pattern) first)
    (present : pattern.isEmpty = false) : Completes pattern (Content.text content) := by
  cases settles with
  | skipped absent =>
    rw [active_some_iff.mpr ⟨rfl, present⟩] at absent
    cases absent
  | completed _ compiled ended => exact ⟨_, compiled, ended⟩

/-- The first entry of a plan either settles, and the others go on from what it has left, or
fails, and the others are not looked at. -/
theorem passes_head (renderer : Renderer) (head : Category × Option Pattern) (content : Holder) :
    (∃ first, Settles renderer content head first ∧
      ∀ others, passes renderer (head :: others) content = first.andThen (passes renderer others)) ∨
    (∃ pattern error, head = (error.category, some pattern) ∧ pattern.isEmpty = false ∧
      Fails head.1 pattern (Content.text content) error ∧
      ∀ others, passes renderer (head :: others) content = ⟨content, [], [], some error⟩) := by
  obtain ⟨category, entry⟩ := head
  cases active : active? entry with
  | none =>
    refine .inl ⟨_, .skipped active, fun others => ?_⟩
    simp [passes, active, RunOn.andThen]
  | some pattern =>
    obtain ⟨rfl, present⟩ := active_some_iff.mp active
    rcases pass_cases renderer category pattern (Content.text content) with
      ⟨regex, compiled, ended, completed⟩ | ⟨error, fails, failed⟩
    · refine .inl ⟨_, .completed present compiled ended, fun others => ?_⟩
      rw [passes, active]
      simp only [completed]
      cases (regex.scan (Content.text content).toList).marked.length <;>
        simp [RunOn.ofPass, RunOn.andThen]
    · refine .inr ⟨pattern, error, by rw [fails.category_eq], present, fails, fun others => ?_⟩
      simp [passes, active, failed]

/-- A plan runs as its two parts run one after the other.

Proof: induction over the first part. Its failure ends both runs at the same pass; an entry
that settles adds the same beginning to both. -/
theorem passes_append (renderer : Renderer) (earlier later : List (Category × Option Pattern))
    (content : Holder) :
    passes renderer (earlier ++ later) content =
      (passes renderer earlier content).andThen (passes renderer later) := by
  induction earlier generalizing content with
  | nil => simp [passes, RunOn.andThen]
  | cons head others induction =>
    rw [List.cons_append]
    rcases passes_head renderer head content with
      ⟨first, _, settled⟩ | ⟨pattern, error, _, _, _, failed⟩
    · rw [settled, settled, RunOn.and_then_assoc, funext induction]
    · rw [failed, failed, RunOn.and_then_failed rfl]

/-- If a plan completes, so do its two parts, the one on what the other has left. -/
theorem passes_completed {renderer : Renderer} {earlier later : List (Category × Option Pattern)}
    {content : Holder} (completes : (passes renderer (earlier ++ later) content).error = none) :
    (passes renderer earlier content).error = none ∧
      (passes renderer later (passes renderer earlier content).content).error = none := by
  rw [passes_append] at completes
  cases begun : (passes renderer earlier content).error with
  | some error =>
    rw [RunOn.and_then_failed begun, begun] at completes
    cases completes
  | none =>
    rw [(RunOn.and_then_ends _ begun).2] at completes
    exact ⟨rfl, completes⟩

end Highlight

/-- Reading gives back the text that has been put in, and nothing else of the holder depends on
it. -/
class LawfulContent (Holder : Type) [Content Holder] : Prop where
  text_replace (holder : Holder) (text : String) :
    Content.text (Content.replace holder text) = text
  replace_text (holder : Holder) : Content.replace holder (Content.text holder) = holder
  replace_replace (holder : Holder) (former latter : String) :
    Content.replace (Content.replace holder former) latter = Content.replace holder latter

/-- A run on a text, with what comes of the text put into the holder. -/
def RunOn.heldBy (run : RunOn String) (holder : Holder) : RunOn Holder :=
  ⟨Content.replace holder run.content, run.log, run.writes, run.error⟩

namespace Highlight

/-- The passes on a lawful holder are those on its text.

Proof: induction over the plan. A pass that writes leaves a holder of what it has written, and
what is put into that holder later might as well have been put into the one before. -/
theorem passes_held [LawfulContent Holder] (renderer : Renderer)
    (plan : List (Category × Option Pattern)) (holder : Holder) :
    passes renderer plan holder =
      (passes renderer plan (Content.text holder)).heldBy holder := by
  induction plan generalizing holder with
  | nil => simp [passes, RunOn.heldBy, LawfulContent.replace_text]
  | cons head others induction =>
    obtain ⟨category, entry⟩ := head
    rw [passes, passes, Content.text_string]
    cases active? entry with
    | none => simp [induction holder, RunOn.heldBy]
    | some pattern =>
      dsimp only
      cases pass renderer category pattern (Content.text holder) with
      | error error => simp [RunOn.heldBy, LawfulContent.replace_text]
      | ok result =>
        obtain ⟨_ | count, marked⟩ := result
        · simp [induction holder, RunOn.heldBy]
        · simp [induction (Content.replace holder marked), RunOn.heldBy,
            LawfulContent.text_replace, LawfulContent.replace_replace]

end Highlight

/-- Marking what a lawful holder holds is marking its text. -/
theorem highlight_held [LawfulContent Holder] (grammar : Grammar) (holder : Holder) :
    highlight grammar holder = (highlight grammar (Content.text holder)).heldBy holder :=
  Highlight.passes_held Markup.html grammar.plan holder

end Highlighter

import Highlighter.Proofs.Highlight.Passes
import Mathlib

/-!
# What a failed run leaves behind

A run that fails has applied exactly the passes before the failing entry: it holds what a
run of the plan cut off there holds. The failing pass is not half applied, however many
matches it had found, and the entries behind it have no part in the run. The plan is any
list of categories with patterns, so a category may come several times; the failing entry
is the one at which the plan is cut. Nothing is asked of the renderer, nor of what holds the
text: a pass writes to it at its end or not at all.
-/

namespace Highlighter

variable {Holder Renderer : Type} [Content Holder] [Render Renderer]

namespace Highlight

/-- The run of a plan stops with this error at the pattern, behind the given entries. -/
structure StopsAt (renderer : Renderer) (content : Holder) (run : RunOn Holder)
    (error : HighlightError) (earlier : List (Category × Option Pattern)) (pattern : Pattern) :
    Prop where
  /-- The error shows the pattern as it is written. -/
  named : error.pattern = pattern.source
  /-- The entry does not leave its category out. -/
  present : pattern.isEmpty = false
  /-- Every earlier entry leaves its category out, or its pattern compiled for the text it
  was applied to and all its searches in that text ended. -/
  settled : ∀ done category entry others, earlier = done ++ (category, entry) :: others →
    active? entry = none ∨
      ∃ applied, active? entry = some applied ∧
        Completes applied (Content.text (passes renderer done content).content)
  /-- The plan cut off before the entry runs without an error. -/
  completed : (passes renderer earlier content).error = none
  /-- Content, messages and writes are those of the plan cut off before the entry. -/
  committed : run = { passes renderer earlier content with error := some error }
  /-- The error says which way the pattern failed on the content as it then stood. -/
  reason : Fails error.category pattern (Content.text (passes renderer earlier content).content)
    error
  /-- Whatever follows the entry, the run is the same. -/
  unread : ∀ others,
    passes renderer (earlier ++ (error.category, some pattern) :: others) content = run

/-- An entry that settles leaves its category out or completes. -/
theorem Settles.absent_or_completes {renderer : Renderer} {content : Holder} {category : Category}
    {entry : Option Pattern} {first : RunOn Holder}
    (settles : Settles renderer content (category, entry) first) :
    active? entry = none ∨ ∃ applied, active? entry = some applied ∧
      Completes applied (Content.text content) := by
  cases settles with
  | skipped absent => exact .inl absent
  | completed present compiled ended =>
    exact .inr ⟨_, active_some_iff.mpr ⟨rfl, present⟩, _, compiled, ended⟩

/-- A plan that fails at its first entry stops there. -/
theorem stops_at_head {renderer : Renderer} {content : Holder} {pattern : Pattern}
    {error : HighlightError} (present : pattern.isEmpty = false)
    (fails : Fails error.category pattern (Content.text content) error)
    (failed : ∀ others, passes renderer ((error.category, some pattern) :: others) content =
      ⟨content, [], [], some error⟩) :
    StopsAt renderer content ⟨content, [], [], some error⟩ error [] pattern where
  named := fails.pattern_eq
  present := present
  settled := by
    intro done category entry others cut
    simp at cut
  completed := rfl
  committed := rfl
  reason := fails
  unread := failed

/-- A plan that stops behind its first entry does so in the run that the first entry leaves
to the others. -/
theorem StopsAt.behind {renderer : Renderer} {content : Holder}
    {head : Category × Option Pattern} {first : RunOn Holder}
    (settles : Settles renderer content head first)
    (begun : ∀ others, passes renderer (head :: others) content =
      first.andThen (passes renderer others))
    {run : RunOn Holder} {error : HighlightError} {earlier : List (Category × Option Pattern)}
    {pattern : Pattern} (stops : StopsAt renderer first.content run error earlier pattern) :
    StopsAt renderer content (first.andThen fun _ => run) error (head :: earlier) pattern where
  named := stops.named
  present := stops.present
  settled := by
    intro done category entry others cut
    cases done with
    | nil =>
      obtain ⟨rfl, _⟩ := List.cons.inj cut
      exact settles.absent_or_completes
    | cons former done =>
      obtain ⟨rfl, rest⟩ := List.cons.inj cut
      have same : (passes renderer (head :: done) content).content =
          (passes renderer done first.content).content := by
        rw [begun, RunOn.and_then_completed settles.error_none]
      rw [same]
      exact stops.settled done category entry others rest
  completed := by
    rw [begun, RunOn.and_then_completed settles.error_none]
    exact stops.completed
  committed := by
    rw [begun, RunOn.and_then_completed settles.error_none,
      RunOn.and_then_completed settles.error_none, stops.committed]
  reason := by
    rw [begun, RunOn.and_then_completed settles.error_none]
    exact stops.reason
  unread := by
    intro others
    rw [List.cons_append, begun, RunOn.and_then_completed settles.error_none,
      RunOn.and_then_completed settles.error_none, stops.unread]

/-- A failed run stops at an entry of its plan.

Proof: induction over the plan. The run fails at its first entry, or that entry settles and
the run of the others fails on what it has left. -/
theorem passes_stops (renderer : Renderer) (plan : List (Category × Option Pattern))
    (content : Holder) {error : HighlightError}
    (failed : (passes renderer plan content).error = some error) :
    ∃ earlier pattern later, plan = earlier ++ (error.category, some pattern) :: later ∧
      StopsAt renderer content (passes renderer plan content) error earlier pattern := by
  induction plan generalizing content with
  | nil => simp [passes] at failed
  | cons head others induction =>
    rcases passes_head renderer head content with
      ⟨first, settles, begun⟩ | ⟨pattern, actual, rfl, present, fails, refused⟩
    · have completed := settles.error_none
      rw [begun, RunOn.and_then_completed completed] at failed
      obtain ⟨earlier, pattern, later, rfl, stops⟩ := induction first.content failed
      refine ⟨head :: earlier, pattern, later, rfl, ?_⟩
      have run := stops.behind settles begun
      rwa [begun, RunOn.and_then_completed completed, ← RunOn.and_then_completed completed]
    · rw [refused] at failed
      obtain rfl : actual = error := Option.some.inj failed
      refine ⟨[], pattern, others, rfl, ?_⟩
      rw [refused]
      exact stops_at_head present fails refused

end Highlight

/-- A run that fails has applied exactly the passes before the failing entry. -/
theorem failure_commits_earlier_passes (renderer : Renderer) (grammar : Grammar) (content : Holder)
    {error : HighlightError}
    (failed : (highlightWith renderer grammar content).error = some error) :
    ∃ earlier pattern later,
      grammar.plan = earlier ++ (error.category, some pattern) :: later ∧
      Highlight.StopsAt renderer content (highlightWith renderer grammar content) error earlier
        pattern :=
  Highlight.passes_stops renderer grammar.plan content failed

/-- A grammar whose pattern for literals matches and whose pattern for numbers is not
closed. -/
def unclosedNumbers : Grammar where
  name := "unclosed"
  extensions := []
  literals := some ⟨"a", {}⟩
  numbers := some ⟨"(", {}⟩

/-- Behind a pass that has marked something, a pattern that does not compile stops the
run. -/
theorem failure_commits_marked_literals :
    let error : HighlightError := .invalidPattern .number "(" (.malformed 1 .unclosedGroup)
    (highlightWith Markup.html unclosedNumbers "ab").error = some error ∧
      ∃ earlier pattern later,
        unclosedNumbers.plan = earlier ++ (error.category, some pattern) :: later ∧
        Highlight.StopsAt Markup.html "ab" (highlightWith Markup.html unclosedNumbers "ab") error
          earlier pattern := by
  have failed : (highlightWith Markup.html unclosedNumbers "ab").error =
      some (.invalidPattern .number "(" (.malformed 1 .unclosedGroup)) := by cbv
  exact ⟨failed, failure_commits_earlier_passes Markup.html unclosedNumbers "ab" failed⟩

end Highlighter

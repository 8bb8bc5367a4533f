import Highlighter.Proofs.Dart.Stack
import Highlighter.Proofs.Highlight.Passes
import Highlighter.Proofs.Text.Bytes

/-!
# How a run with the grammar of Dart can fail

The limit on going back grows with the text, and the patterns of Dart go back no more than
a fixed number of times for each character. So they compile, and no search with them reaches
the limit, whatever the text. The stack of a search does not grow with the text. A search for
literals or functions fills it where a quote is not closed or a name does not end for about a
million characters, and then the run fails. It fails in no other way.
-/

namespace Highlighter

open Text (Cursor)
open Regex (Expr)

/-- The limit allows for the steps that the patterns of Dart can need for each character. -/
theorem Pattern.steps_le_limit (content : String) (place : Cursor content.toList) :
    Dart.stepsPerCharacter * (place.after.length + 1) ≤ searchLimit content := by
  have characters : content.toList.length ≤ content.utf8ByteSize := by
    rw [← Text.byte_length_to_list]
    exact Text.length_le_byte_length _
  have ahead : place.after.length ≤ content.utf8ByteSize := by
    rw [place.length_after]
    omega
  unfold searchLimit limitPerByte defaultLimit Dart.stepsPerCharacter
  omega

variable {Holder Renderer : Type} [Content Holder] [Render Renderer]

/-- The run has failed because a search has filled the stack. Its text, as the passes before have
left it, has a quote or a name for which the stack is not known to suffice. -/
def RunOn.Overflown (run : RunOn Holder) : Prop :=
  ∃ category pattern, run.error = some (.matchFailed category pattern (.exceeded .stack)) ∧
    ¬ Dart.Bounded category (Content.text run.content).toList

namespace Highlight

/-- The pattern compiles for every limit, and no search in a text reaches the limit of that text or
a higher one. A search is given up only for the stack, and only in a text for which the stack is not
known to suffice. -/
structure Reliable (category : Category) (pattern : Pattern) : Prop where
  compiles : ∀ limit, ∃ regex, pattern.compile limit = .ok regex
  ends : ∀ content limit, Pattern.searchLimit content ≤ limit →
    ∃ regex, pattern.compile limit = .ok regex ∧ regex.limit = limit ∧
      ∀ place : Cursor content.toList, (∃ found, regex.find? place = .ok found) ∨
        regex.find? place = .error (.exceeded .stack) ∧ ¬ Dart.Bounded category content.toList

/-- A pattern that is read as an expression of the plan is reliable. -/
theorem reliable_of_read {pattern : Pattern} {part : Category × Expr} (listed : part ∈ Dart.plan)
    (reads : pattern.ReadAs part.2) : Reliable part.1 pattern := by
  obtain ⟨made, matched, bounded⟩ := Dart.plan_made part listed
  have compiled := reads.compile_eq matched
  constructor
  · exact fun limit => ⟨_, compiled limit⟩
  · intro content limit large
    refine ⟨_, compiled _, rfl, fun place => ?_⟩
    have enough (code : Regex.Code) (machine : made = .machine code) :=
      Nat.le_trans (bounded code machine place)
        (Nat.le_trans (Pattern.steps_le_limit content place) large)
    rcases Regex.find_cases (reads.stands (compiled _)) enough with
      found | ⟨overflown, code, machine, full⟩
    · exact .inl found
    · refine .inr ⟨overflown, fun room => full ?_⟩
      exact Dart.plan_roomy part listed code (matched.trans (congrArg _ machine)) _ room

namespace Reliable

variable {category : Category} {pattern : Pattern}

/-- A scan with a reliable pattern comes to the end of its text, or fills the stack. -/
theorem scan_cases (reliable : Reliable category pattern) {content : String} {limit : Nat}
    (large : Pattern.searchLimit content ≤ limit) {regex : Regex}
    (compiled : pattern.compile limit = .ok regex) :
    (regex.scan content.toList).problem = none ∨
      (regex.scan content.toList).problem = some (.exceeded .stack) ∧
        ¬ Dart.Bounded category content.toList := by
  obtain ⟨actual, again, _, searched⟩ := reliable.ends content limit large
  obtain rfl := Except.ok.inj (compiled.symm.trans again)
  rcases Regex.scan_given_up regex content.toList with ended | ⟨cause, given, place, failed⟩
  · exact .inl ended
  · rcases searched place with ⟨found, ended⟩ | ⟨overflown, unbounded⟩
    · rw [failed] at ended
      cases ended
    · obtain rfl := Except.error.inj (failed.symm.trans overflown)
      exact .inr ⟨given, unbounded⟩

/-- A scan with a reliable pattern comes to the end of a text for which the stack suffices. -/
theorem scan_ended (reliable : Reliable category pattern) {content : String}
    (bounded : Dart.Bounded category content.toList) {regex : Regex}
    (compiled : pattern.compile (Pattern.searchLimit content) = .ok regex) :
    (regex.scan content.toList).problem = none :=
  (reliable.scan_cases (Nat.le_refl _) compiled).resolve_right fun failed => failed.2 bounded

/-- A reliable pattern completes on a text for which the stack suffices. -/
theorem completes (reliable : Reliable category pattern) {content : String}
    (bounded : Dart.Bounded category content.toList) : Completes pattern content := by
  obtain ⟨regex, compiled⟩ := reliable.compiles (Pattern.searchLimit content)
  exact ⟨regex, compiled, reliable.scan_ended bounded compiled⟩

/-- A reliable pattern fails only for the stack. -/
theorem error_eq (reliable : Reliable category pattern) {content : String} {error : HighlightError}
    (fails : Fails category pattern content error) :
    error = .matchFailed category pattern.source (.exceeded .stack) ∧
      ¬ Dart.Bounded category content.toList := by
  cases fails with
  | invalidPattern refused =>
    obtain ⟨regex, compiled⟩ := reliable.compiles (Pattern.searchLimit content)
    rw [compiled] at refused
    cases refused
  | matchFailed compiled givenUp =>
    rcases reliable.scan_cases (Nat.le_refl _) compiled with ended | ⟨overflown, unbounded⟩
    · rw [ended] at givenUp
      cases givenUp
    · obtain rfl := Option.some.inj (givenUp.symm.trans overflown)
      exact ⟨rfl, unbounded⟩

end Reliable

/-- Of a run with reliable patterns one pass can fail, and only for the stack. -/
theorem passes_cases (renderer : Renderer) {plan : List (Category × Option Pattern)}
    (reliable : ∀ entry ∈ plan, ∀ pattern, entry.2 = some pattern → Reliable entry.1 pattern)
    (content : Holder) : (passes renderer plan content).error = none ∨
      ∃ entry ∈ plan, ∃ pattern, (passes renderer plan content).error =
          some (.matchFailed entry.1 pattern (.exceeded .stack)) ∧
        ¬ Dart.Bounded entry.1 (Content.text (passes renderer plan content).content).toList := by
  induction plan generalizing content with
  | nil => exact .inl rfl
  | cons head others induction =>
    rcases passes_head renderer head content with
      ⟨first, settles, begun⟩ | ⟨pattern, error, same, _, fails, failed⟩
    · rw [begun, RunOn.and_then_completed settles.error_none]
      rcases induction (fun entry listed => reliable entry (List.mem_cons_of_mem _ listed))
        first.content with ended | ⟨entry, listed, overflown⟩
      · exact .inl ended
      · exact .inr ⟨entry, List.mem_cons_of_mem _ listed, overflown⟩
    · have present : head.2 = some pattern := congrArg Prod.snd same
      obtain ⟨rfl, unbounded⟩ := (reliable head List.mem_cons_self pattern present).error_eq fails
      rw [failed]
      exact .inr ⟨head, List.mem_cons_self, pattern.source, rfl, unbounded⟩

/-- All patterns of Dart are reliable. -/
theorem dart_reliable : ∀ entry ∈ Grammar.dart.plan, ∀ pattern, entry.2 = some pattern →
    Reliable entry.1 pattern := by
  intro entry listed pattern present
  obtain ⟨part, member, category, actual, same, _, reads⟩ := Dart.exists_read listed
  obtain rfl := Option.some.inj (present.symm.trans same)
  have reliable := reliable_of_read member reads
  rwa [← category] at reliable

/-- A run with the grammar of Dart completes or fills the stack. -/
theorem dart_run_cases (renderer : Renderer) (content : Holder) :
    (highlightWith renderer Grammar.dart content).error = none ∨
      (highlightWith renderer Grammar.dart content).Overflown := by
  rcases passes_cases renderer dart_reliable content with ended | ⟨entry, _, pattern, failed⟩
  · exact .inl ended
  · exact .inr ⟨entry.1, pattern, failed⟩

/-- Of runs in a row with the grammar of Dart the last can fill the stack; the others complete. -/
theorem dart_runs_cases (renderer : Renderer) (count : Nat) (content : Holder) :
    (highlightTimes renderer Grammar.dart count content).error = none ∨
      (highlightTimes renderer Grammar.dart count content).Overflown := by
  induction count generalizing content with
  | zero => exact .inl rfl
  | succ count induction =>
    unfold highlightTimes
    rcases dart_run_cases renderer content with ended | overflown
    · simp only [ended, Option.isSome_none, Bool.false_eq_true, ↓reduceIte]
      rcases induction (highlightWith renderer Grammar.dart content).content with
        ended | ⟨category, pattern, failed, unbounded⟩
      · exact .inl ended
      · exact .inr ⟨category, pattern, failed, unbounded⟩
    · obtain ⟨category, pattern, failed, unbounded⟩ := overflown
      simp only [failed, Option.isSome_some, ↓reduceIte]
      exact .inr ⟨category, pattern, failed, unbounded⟩

end Highlight

end Highlighter

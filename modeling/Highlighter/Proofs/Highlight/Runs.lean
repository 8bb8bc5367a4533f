import Highlighter.Proofs.Highlight.Shallow
import Highlighter.Proofs.Highlight.WellTagged

/-!
# Which runs of Dart complete

A text can be marked any number of times, each time with the markup of the runs before in it. The
only thing that can end this is a full stack. Names stay as short as they are, so the pass of
functions fails in no run if it does not fail in the first. But a text between quotes grows from run
to run with the markup inside of it. So for a source with quotes something has to be known of the text
in front of each run. Without quotes nothing grows: then the only quotes in a well tagged text are
those of its tags, which are closed within the tag.
-/

namespace Highlighter

open Text (Cursor)
open Markup (html)
open Highlight (passes)
open Regex.Machine (stackLimit)

/-- Runs in a row complete if each of them begins with a shallow text. -/
theorem Dart.shallow_runs_complete {count : Nat} {content : String}
    (shallow : ∀ earlier < count,
      Shallow (highlightTimes html Grammar.dart earlier content).content) :
    (highlightTimes html Grammar.dart count content).error = none := by
  induction count generalizing content with
  | zero => rfl
  | succ count induction =>
    have first : (highlight Grammar.dart content).error = none :=
      (shallow 0 (Nat.succ_pos count)).completes
    have begun (count : Nat) :=
      RunOn.and_then_ends (highlightTimes html Grammar.dart count) first
    refine (begun count).2.trans (induction fun earlier before => ?_)
    rw [← (begun earlier).1]
    exact shallow (earlier + 1) (Nat.succ_lt_succ before)

/-! ### Sources without quotes -/

/-- In a well tagged text without quotes outside of its tags, the stack suffices for each pass, if
names are short. -/
theorem WellTagged.bounded {text source : List Char} (tagged : WellTagged text source)
    (single : '\'' ∉ source) (double : '"' ∉ source) (short : Dart.NamesShort text)
    (category : Category) : Dart.Bounded category text := by
  cases category with
  | literal =>
    exact Dart.quotes_close_within_tags (tagged.tagged.single_missing single)
      (tagged.tagged.within_tags double)
  | function => exact short
  | _ => trivial

/-- An entry of Dart that settles leaves a well tagged text well tagged. -/
theorem Highlight.Settles.well_tagged {entry : Category × Option Pattern}
    (planned : entry ∈ Grammar.dart.plan) {content : String} {source : List Char}
    (tagged : WellTagged content.toList source) (double : '"' ∉ source) {first : Run}
    (settles : Settles html content entry first) : WellTagged first.content.toList source := by
  cases settles with
  | skipped absent => exact tagged
  | completed present compiled ended =>
    rw [Content.text_string] at compiled ended ⊢
    unfold RunOn.ofPass
    split
    · exact tagged
    · obtain ⟨kept, _⟩ := tagged.marked planned (fun _ => double) compiled ended
      change WellTagged (String.ofList _).toList source
      rwa [String.toList_ofList]

/-- Passes of Dart complete on a well tagged text without quotes outside of its tags, if names are
short, and leave such a text.

Proof: induction over the plan. -/
theorem Highlight.passes_complete {plan : List (Category × Option Pattern)}
    (planned : ∀ entry ∈ plan, entry ∈ Grammar.dart.plan) {content : String} {source : List Char}
    (tagged : WellTagged content.toList source) (single : '\'' ∉ source) (double : '"' ∉ source)
    (short : Dart.NamesShort content.toList) :
    (passes html plan content).error = none ∧
      WellTagged (passes html plan content).content.toList source := by
  induction plan generalizing content with
  | nil => exact ⟨rfl, tagged⟩
  | cons head others induction =>
    obtain ⟨listed, further⟩ := List.forall_mem_cons.mp planned
    rcases passes_head html head content with
      ⟨first, settles, begun⟩ | ⟨pattern, error, same, _, fails, _⟩
    · have names := passes_names_short [head] short
      rw [begun] at names ⊢
      obtain ⟨content, error⟩ := RunOn.and_then_ends (passes html others) settles.error_none
      rw [content, error]
      rw [(RunOn.and_then_ends (passes html []) settles.error_none).1] at names
      exact induction further (settles.well_tagged listed tagged double) names
    · obtain ⟨_, unbounded⟩ :=
        (dart_reliable head listed pattern (congrArg Prod.snd same)).error_eq fails
      exact absurd (tagged.bounded single double short head.1) unbounded

/-- Any number of runs completes on a well tagged text without quotes outside of its tags, if names
are short. -/
theorem WellTagged.runs_complete {content : String} {source : List Char}
    (tagged : WellTagged content.toList source) (single : '\'' ∉ source) (double : '"' ∉ source)
    (short : Dart.NamesShort content.toList) (count : Nat) :
    (highlightTimes html Grammar.dart count content).error = none := by
  induction count generalizing content with
  | zero => rfl
  | succ count induction =>
    have run : highlight Grammar.dart content = passes html Grammar.dart.plan content := rfl
    obtain ⟨completes, kept⟩ := @Highlight.passes_complete Grammar.dart.plan
      (fun _ listed => listed) content source tagged single double short
    have names := Highlight.passes_names_short Grammar.dart.plan short
    rw [← run] at completes kept names
    refine (RunOn.and_then_ends (highlightTimes html Grammar.dart count) completes).2.trans ?_
    exact induction kept names

/-! ### Runs -/

end Highlighter

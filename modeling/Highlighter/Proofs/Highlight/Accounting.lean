import Highlighter.Proofs.Highlight.Failure
import Highlighter.Proofs.Highlight.Layers

/-!
# Content, log and writes account for each other

Every match that a run reports has added the markup of its category to the content, and
nothing else has. So the length of the content can be told from the log, and each text that
replaces the content belongs to one message. A pass without matches reports that it has none
and writes nothing; matches without characters are not reported.

The account of several runs is made up of those of the single runs. It does not matter
whether a run has failed: what a failed run has reported is what it has written.
-/

namespace Highlighter

open Text (byteLength)

/-- The bytes by which the content grows with what the message reports: the markup of a page
around each match, of which 22 bytes do not depend on the category. -/
def Message.addedBytes : Message → Nat
  | passed category count => count * (22 + category.className.utf8ByteSize)
  | _ => 0

/-- The message reports a pass that has marked something. -/
def Message.reportsMatches : Message → Bool
  | passed _ count => count ≠ 0
  | _ => false

/-- The texts that replace the content, each with the one that it replaces. -/
def replacements : String → List String → List (String × String)
  | _, [] => []
  | content, marked :: others => (content, marked) :: replacements marked others

/-- The log and the writes account for what has become of the content. -/
structure Balanced (content : String) (run : Run) : Prop where
  /-- The content has grown by the markup of all the matches that are reported. -/
  grown : run.content.utf8ByteSize =
    content.utf8ByteSize + (run.log.map Message.addedBytes).sum
  /-- The writes belong to the messages that report matches, one to each and in order. Each text
  is longer than the one that it replaces, by the markup that its message reports. -/
  written : List.Forall₂
    (fun message replaced => replaced.1.utf8ByteSize < replaced.2.utf8ByteSize ∧
      replaced.2.utf8ByteSize = replaced.1.utf8ByteSize + message.addedBytes)
    (run.log.filter Message.reportsMatches) (replacements content run.writes)
  /-- The last text that was written is the content; if none was, it is as before. -/
  last : run.writes.getLastD content = run.content

/-- What an entry of the plan is told about in the log, unless it fails. -/
inductive Told : Category × Option Pattern → Message → Prop where
  | skipped {category : Category} {entry : Option Pattern}
      (absent : Highlight.active? entry = none) : Told (category, entry) (.skipped category)
  | passed {category : Category} {entry : Option Pattern} {pattern : Pattern}
      (present : Highlight.active? entry = some pattern) (count : Nat) :
      Told (category, entry) (.passed category count)

/-- The log has one message for each entry of the plan, in order; if the run has failed, for each
entry before the one that failed. -/
structure RunOn.Tells (plan : List (Category × Option Pattern)) (run : Run) : Prop where
  succeeded : run.error = none → List.Forall₂ Told plan run.log
  failed : ∀ error, run.error = some error → ∃ earlier pattern later,
    plan = earlier ++ (error.category, some pattern) :: later ∧
      Highlight.Fails error.category pattern run.content error ∧
      List.Forall₂ Told earlier run.log

/-- Runs in a row, each on what the run before has left, even if that run has failed. -/
def runsInARow (markup : Markup) (grammar : Grammar) : Nat → String → List Run
  | 0, _ => []
  | count + 1, content =>
    let first := highlightWith markup grammar content
    first :: runsInARow markup grammar count first.content

/-- What runs in a row come to together. -/
def Run.joined (content : String) : List Run → Run
  | [] => ⟨content, [], [], none⟩
  | first :: others =>
    let later := joined first.content others
    ⟨later.content, first.log ++ later.log, first.writes ++ later.writes,
      if others.isEmpty then first.error else later.error⟩

/-! ### Bytes -/

/-- The elements of a page add 22 bytes and the name of the class to the text of a category. -/
theorem Markup.byte_length_wrap (category : Category) (text : List Char) :
    byteLength (html.wrap category text) =
      byteLength text + (22 + category.className.utf8ByteSize) := by
  have added : byteLength (html.opened category) + byteLength html.closing.toList =
      22 + category.className.utf8ByteSize := by
    cases category <;> decide
  rw [wrap, Text.byte_length_append, Text.byte_length_append]
  omega

/-- Each marked stretch adds the markup of its category. -/
theorem Stretch.byte_length_written (category : Category) (stretches : List Stretch) :
    byteLength (stretches.flatMap (written Markup.html category)) =
      byteLength (stretches.flatMap text) +
        count stretches * (22 + category.className.utf8ByteSize) := by
  induction stretches with
  | nil => simp [count]
  | cons stretch others induction =>
    rw [List.flatMap_cons, List.flatMap_cons, Text.byte_length_append, Text.byte_length_append,
      induction]
    cases stretch with
    | plain passed =>
      rw [written, text, count]
      omega
    | marked matched =>
      rw [written, text, count, Markup.byte_length_wrap, Nat.add_one_mul]
      omega

/-! ### The account of a run -/

/-- What is replaced first is replaced before the others. -/
theorem replacements_append (content : String) (former latter : List String) :
    replacements content (former ++ latter) =
      replacements content former ++ replacements (former.getLastD content) latter := by
  induction former generalizing content with
  | nil => rfl
  | cons marked others induction =>
    rw [List.cons_append, replacements, replacements, induction, List.cons_append,
      List.getLastD_cons]

/-- A run that has done nothing is accounted for. -/
theorem Balanced.idle (content : String) (error : Option HighlightError) :
    Balanced content ⟨content, [], [], error⟩ where
  grown := rfl
  written := .nil
  last := rfl

/-- If two runs in a row are accounted for, they are so together. -/
theorem Balanced.andThen {content : String} {first second : Run} (former : Balanced content first)
    (latter : Balanced first.content second) (error : Option HighlightError) :
    Balanced content
      ⟨second.content, first.log ++ second.log, first.writes ++ second.writes, error⟩ where
  grown := by
    rw [latter.grown, former.grown, List.map_append, List.sum_append, Nat.add_assoc]
  written := by
    rw [List.filter_append, replacements_append, former.last]
    exact List.rel_append former.written latter.written
  last := by
    rw [← latter.last, ← former.last]
    cases second.writes <;> simp

namespace Highlight

/-- An entry that settles is accounted for. -/
theorem Settles.balanced {content : String} {head : Category × Option Pattern} {first : Run}
    (settles : Settles Markup.html content head first) : Balanced content first := by
  cases settles with
  | skipped absent => exact ⟨rfl, .nil, rfl⟩
  | @completed category pattern regex present compiled ended =>
    rw [Content.text_string]
    have scanned : (Layer.ofScan category (regex.scan content.toList)).source = content.toList := by
      rw [Layer.source_of_scan, Regex.scan_text]
    have grown : (String.ofList ((regex.scan content.toList).withMarkup Markup.html
          category)).utf8ByteSize = content.utf8ByteSize +
        (regex.scan content.toList).marked.length * (22 + category.className.utf8ByteSize) := by
      rw [Text.utf8_byte_size_of_list, ← Layer.written_of_scan, ← Layer.count_of_scan category,
        ← Text.byte_length_to_list]
      refine (Stretch.byte_length_written category _).trans ?_
      exact congrArg (byteLength · + _) scanned
    unfold RunOn.ofPass
    split
    · exact ⟨by simp [Message.addedBytes], .nil, rfl⟩
    · rename_i marks
      have positive : 0 < (regex.scan content.toList).marked.length *
          (22 + category.className.utf8ByteSize) :=
        Nat.mul_pos (Nat.pos_of_ne_zero marks) (Nat.add_pos_left (by decide) _)
      refine ⟨grown, ?_, rfl⟩
      have reported : Message.reportsMatches
          (.passed category (regex.scan content.toList).marked.length) = true := decide_eq_true marks
      rw [List.filter_singleton, reported]
      refine .cons ⟨?_, grown⟩ .nil
      rw [grown]
      exact Nat.lt_add_of_pos_right positive

/-- An entry that settles is told about once. -/
theorem Settles.told {markup : Markup} {content : String} {head : Category × Option Pattern}
    {first : Run} (settles : Settles markup content head first) :
    ∃ message, first.log = [message] ∧ Told head message := by
  cases settles with
  | skipped absent => exact ⟨_, rfl, .skipped absent⟩
  | completed present compiled ended =>
    unfold RunOn.ofPass
    split
    · exact ⟨_, rfl, .passed (active_some_iff.mpr ⟨rfl, present⟩) _⟩
    · exact ⟨_, rfl, .passed (active_some_iff.mpr ⟨rfl, present⟩) _⟩

/-- A run is accounted for, whether it succeeds or fails.

Proof: induction over the plan. An entry that settles adds its account to that of the others. -/
theorem passes_balanced (plan : List (Category × Option Pattern)) (content : String) :
    Balanced content (passes Markup.html plan content) := by
  induction plan generalizing content with
  | nil => exact .idle content none
  | cons head others induction =>
    rcases passes_head Markup.html head content with
      ⟨first, settles, begun⟩ | ⟨pattern, error, _, _, _, failed⟩
    · rw [begun, RunOn.and_then_completed settles.error_none]
      exact settles.balanced.andThen (induction first.content) _
    · rw [failed]
      exact .idle content (some error)

/-- A run without failure tells about each entry of its plan once and in order. -/
theorem passes_told {markup : Markup} {plan : List (Category × Option Pattern)} {content : String}
    (completed : (passes markup plan content).error = none) :
    List.Forall₂ Told plan (passes markup plan content).log := by
  induction plan generalizing content with
  | nil => exact .nil
  | cons head others induction =>
    rcases passes_head markup head content with
      ⟨first, settles, begun⟩ | ⟨pattern, error, _, _, _, failed⟩
    · rw [begun, RunOn.and_then_completed settles.error_none] at completed ⊢
      obtain ⟨message, logged, told⟩ := settles.told
      rw [logged]
      exact .cons told (induction completed)
    · rw [failed] at completed
      cases completed

/-- A run tells about the entries of its plan up to the one that fails. -/
theorem passes_tells (markup : Markup) (plan : List (Category × Option Pattern))
    (content : String) : (passes markup plan content).Tells plan := by
  constructor
  · exact passes_told
  · intro error failed
    obtain ⟨earlier, pattern, later, split, stops⟩ := passes_stops markup plan content failed
    refine ⟨earlier, pattern, later, split, ?_, ?_⟩
    · rw [stops.committed]
      exact stops.reason
    · rw [stops.committed]
      exact passes_told stops.completed

end Highlight

/-! ### The account of several runs -/

/-- Runs in a row are accounted for together. -/
theorem balanced_runs (grammar : Grammar) (count : Nat) (content : String) :
    Balanced content (Run.joined content (runsInARow Markup.html grammar count content)) := by
  induction count generalizing content with
  | zero => exact .idle content none
  | succ count induction =>
    have first := Highlight.passes_balanced grammar.plan content
    exact first.andThen (induction (highlightWith Markup.html grammar content).content) _

/-- Each of the runs in a row tells about the entries of the plan. -/
theorem runs_tell (markup : Markup) (grammar : Grammar) (count : Nat) (content : String) :
    ∀ run ∈ runsInARow markup grammar count content, run.Tells grammar.plan := by
  induction count generalizing content with
  | zero => exact nofun
  | succ count induction =>
    intro run listed
    rcases List.mem_cons.mp listed with rfl | later
    · exact Highlight.passes_tells markup grammar.plan content
    · exact induction _ run later

/-- Runs that end with the first failure are some runs in a row: all of them if none has failed,
and otherwise those up to the one that has. -/
theorem highlight_times_joined (markup : Markup) (grammar : Grammar) (count : Nat)
    (content : String) :
    ∃ done ≤ count,
      highlightTimes markup grammar count content =
        Run.joined content (runsInARow markup grammar done content) ∧
      ((highlightTimes markup grammar count content).error = none → done = count) := by
  induction count generalizing content with
  | zero => exact ⟨0, Nat.le_refl 0, rfl, fun _ => rfl⟩
  | succ count induction =>
    cases failed : (highlightWith markup grammar content).error with
    | some error =>
      have first : highlightTimes markup grammar (count + 1) content =
          highlightWith markup grammar content := by
        simp [highlightTimes, failed]
      refine ⟨1, by omega, ?_, ?_⟩
      · rw [first]
        simp [runsInARow, Run.joined]
      · rw [first, failed]
        exact nofun
    | none =>
      obtain ⟨done, within, same, all⟩ :=
        induction (highlightWith markup grammar content).content
      have first : highlightTimes markup grammar (count + 1) content =
          (highlightWith markup grammar content).andThen
            (highlightTimes markup grammar count) := rfl
      rw [first, RunOn.and_then_completed failed]
      refine ⟨done + 1, by omega, ?_, fun completed => by rw [all completed]⟩
      rw [same, runsInARow, Run.joined]
      split
      · rename_i none
        rw [List.isEmpty_iff.mp none, failed]
        rfl
      · rfl

/-- However often a text is marked with the elements of a page, and whichever runs fail, content,
log and writes account for each other, and every run tells about the entries of its plan: all of
them, or those before the one at which it has failed. Runs that end with the first failure are
such runs in a row, cut off behind the one that has failed. -/
theorem runs_account (grammar : Grammar) (content : String) (count : Nat) :
    Balanced content (Run.joined content (runsInARow Markup.html grammar count content)) ∧
      (∀ run ∈ runsInARow Markup.html grammar count content, run.Tells grammar.plan) ∧
      Balanced content (highlightTimes Markup.html grammar count content) ∧
      ∃ done ≤ count, highlightTimes Markup.html grammar count content =
          Run.joined content (runsInARow Markup.html grammar done content) ∧
        ((highlightTimes Markup.html grammar count content).error = none → done = count) := by
  obtain ⟨done, within, same, all⟩ := highlight_times_joined Markup.html grammar count content
  refine ⟨balanced_runs grammar count content, runs_tell Markup.html grammar count content, ?_,
    done, within, same, all⟩
  rw [same]
  exact balanced_runs grammar done content

end Highlighter

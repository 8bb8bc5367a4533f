import Highlighter.Proofs.Grammar.Description
import Highlighter.Proofs.Highlight.Absence

/-!
# Descriptions by which nothing is marked

A run that skips every entry of its plan leaves the text as it is, whatever the text. Whether it
does so can be told from the grammar: for each category either nothing is given or an empty
pattern, and no names are given at all, since the tail of a call makes a pattern of empty names.

Whoever describes a grammar is warned if nothing is described that could be marked. The warning
looks for patterns, not at them: it is given if none is there, and so it is always right. A
description with an empty pattern and nothing else marks as little and gets no warning.
-/

namespace Highlighter

namespace Highlight

variable {markup : Markup} {plan : List (Category × Option Pattern)} {content : String}

/-- What comes of a text if all entries of the plan are skipped. -/
def untouchedRun (plan : List (Category × Option Pattern)) (content : String) : Run :=
  ⟨content, plan.map fun entry => .skipped entry.1, [], none⟩

/-- A run skips all entries if and only if none of them is active.

Proof: induction over the plan. The first entry tells of skipping only if it is not active, and
what the others tell is not changed by it. -/
theorem passes_untouched_iff :
    passes markup plan content = untouchedRun plan content ↔
      ∀ entry ∈ plan, active? entry.2 = none := by
  induction plan with
  | nil => exact iff_of_true rfl (List.forall_mem_nil _)
  | cons entry others induction =>
    obtain ⟨category, entry⟩ := entry
    rw [List.forall_mem_cons, ← induction, passes]
    cases active : active? entry with
    | none =>
      generalize passes markup others content = run
      cases run
      simp [untouchedRun]
    | some pattern =>
      have told (run : Run) (other : run.log.head? ≠ some (.skipped category)) :
          run ≠ untouchedRun ((category, entry) :: others) content :=
        fun same => other (congrArg (fun run : Run => run.log.head?) same)
      simp only [reduceCtorEq, false_and, iff_false, Content.text_string]
      cases pass markup category pattern content with
      | error error => exact told _ (by simp)
      | ok result =>
        obtain ⟨_ | count, marked⟩ := result
        · exact told _ (by simp)
        · exact told _ (by simp)

end Highlight

namespace Grammar

variable {grammar : Grammar}

/-- A run on the text skips all six categories. So the text stays as it is, nothing is written and
nothing fails. -/
def SkipsAll (grammar : Grammar) (content : String) : Prop :=
  highlight grammar content = Highlight.untouchedRun grammar.plan content

/-- All categories are skipped if and only if the grammar leaves out each of them. The text does not
matter. -/
theorem skips_all_iff {content : String} :
    grammar.SkipsAll content ↔ ∀ category, grammar.LeavesOut category := by
  rw [SkipsAll, highlight, highlightWith, Highlight.passes_untouched_iff]
  constructor
  · intro skipped category
    have left {category : Category} (emitted : category ≠ .identifier) :
        grammar.LeavesOut category := by
      obtain ⟨entry, later, plan, _, active, _⟩ := grammar.exists_entry emitted
      exact active.mp (skipped (category, entry) (by simp [plan]))
    cases category with
    | identifier => exact ⟨(@left .function (by decide)).1, by simp⟩
    | keyword | literal | function | number | type | comment => exact left (by decide)
  · intro absent entry listed
    have left (category : Category) : (grammar.producer category).all Pattern.isEmpty :=
      (absent category).1
    simp only [plan, List.mem_cons, List.not_mem_nil, or_false] at listed
    rcases listed with rfl | rfl | rfl | rfl | rfl | rfl
    · exact not_active_iff.mpr (left .keyword)
    · exact not_active_iff.mpr (left .literal)
    · exact grammar.functions_active.mpr ((absent .function).2 rfl)
    · exact not_active_iff.mpr (left .number)
    · exact not_active_iff.mpr (left .type)
    · exact not_active_iff.mpr (left .comment)

/-- The plan has no pattern if and only if the grammar gives none for any category. -/
theorem plan_bare_iff :
    (grammar.plan.all fun entry => entry.2.isNone) ↔
      ∀ category, grammar.producer category = none := by
  simp only [plan, functions, List.all_cons, List.all_nil, Bool.and_true, Bool.and_eq_true,
    Option.isNone_iff_eq_none, Option.map_eq_none_iff]
  constructor
  · rintro ⟨keywords, literals, names, numbers, classes, comments⟩ category
    cases category <;> assumption
  · intro nothing
    exact ⟨nothing .keyword, nothing .literal, nothing .function, nothing .number, nothing .type,
      nothing .comment⟩

/-- The warning is given if and only if there is no pattern at all. -/
theorem warned_iff_bare {description : Description} :
    .describedNothing grammar.name ∈ description.log grammar ↔
      ∀ category, grammar.producer category = none := by
  rw [← plan_bare_iff, Description.log]
  by_cases bare : grammar.plan.all fun entry => entry.2.isNone
  · rw [if_pos bare]
    exact iff_of_true (by simp) bare
  · rw [if_neg bare]
    exact iff_of_false (by simp) bare

/-- Whoever describes a grammar is warned if and only if highlighting by it skips all six categories
on every text and no category is described by an empty pattern. So the warning is always right, and
without empty patterns it is never missing. -/
theorem warned_iff_skips_all {text : String} {log : List Message}
    (accepted : Grammar.parse text = .ok (grammar, log)) :
    .describedNothing grammar.name ∈ log ↔
      (∀ content, grammar.SkipsAll content) ∧
        ∀ category pattern, grammar.producer category = some pattern → pattern.source ≠ "" := by
  obtain ⟨description, _, _, rfl⟩ := Grammar.parse_eq_ok_iff.mp accepted
  rw [warned_iff_bare]
  simp only [skips_all_iff, forall_const]
  constructor
  · intro nothing
    refine ⟨fun category => ⟨by rw [nothing category]; rfl, fun _ => nothing .identifier⟩, ?_⟩
    intro category pattern given
    rw [nothing category] at given
    cases given
  · rintro ⟨absent, filled⟩ category
    cases given : grammar.producer category with
    | none => rfl
    | some pattern =>
      have empty := (absent category).1
      rw [given, Option.all_some, Pattern.isEmpty, String.isEmpty_iff] at empty
      exact absurd empty (filled category pattern given)

/-- A description of a name and nothing else is warned about. -/
theorem name_alone_warned :
    Grammar.parse "name = \"plain\"" =
        .ok ({ name := "plain", extensions := [] }, [.described "plain" 0, .describedNothing "plain"]) ∧
      ∀ content, SkipsAll { name := "plain", extensions := [] } content := by
  have accepted : Grammar.parse "name = \"plain\"" =
      .ok ({ name := "plain", extensions := [] },
        [.described "plain" 0, .describedNothing "plain"]) := by cbv
  exact ⟨accepted, ((warned_iff_skips_all accepted).mp (by simp)).1⟩

/-- The description of a grammar with an empty pattern of numbers. -/
def emptyNumbers : String := "name = \"blank\"\n[numbers]\nsource = \"\"\n"

/-- Highlighting by an empty pattern of numbers skips all six categories on every text, and there is
no warning. -/
theorem empty_numbers_not_warned :
    ∃ grammar log, Grammar.parse emptyNumbers = .ok (grammar, log) ∧
      (∀ content, grammar.SkipsAll content) ∧ .describedNothing grammar.name ∉ log := by
  refine ⟨{ name := "blank", extensions := [], numbers := some ⟨"", {}⟩ }, [.described "blank" 0],
    by cbv, fun content => skips_all_iff.mpr fun category => ?_, by simp⟩
  cases category <;> exact ⟨rfl, fun _ => rfl⟩

end Grammar

end Highlighter

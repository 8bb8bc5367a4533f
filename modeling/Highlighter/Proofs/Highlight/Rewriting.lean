import Highlighter.Proofs.Highlight.Completion
import Highlighter.Proofs.Regex.Lines

/-!
# Completed runs as rewritings of the text

A run that completes is decided by the expressions of its patterns alone: each pass finds the
matches of its expression one after another, puts markup around them, and reports how many
there were. `Rewritten` says so for a whole plan. Nothing of patterns, matchers and limits is
left in it, and there is one result for each text.
-/

namespace Highlighter

open Text (Cursor)
open Regex (Expr Found Hits)
open Markup (marking)

/-- Passes of the expressions, one after another, make the result of the text and report this. -/
inductive Rewritten (markup : Markup) :
    List (Category × Expr) → List Char → List Char → List Message → Prop where
  | done (text : List Char) : Rewritten markup [] text text []
  | pass {category : Category} {expression : Expr} {parts : List (Category × Expr)}
      {text result : List Char} {hits : List (Cursor text × Cursor text)} {found : List Found}
      {rest : List Char} {log : List Message}
      (scanned : Hits expression (Cursor.start text) hits found rest)
      (others : Rewritten markup parts (marking markup category found rest) result log) :
      Rewritten markup ((category, expression) :: parts) text result
        (.passed category found.length :: log)

/-- The first pass of a plan leaves its text to the others. -/
theorem Rewritten.of_cons {markup : Markup} {category : Category} {expression : Expr}
    {parts : List (Category × Expr)} {text result : List Char} {log : List Message}
    (rewritten : Rewritten markup ((category, expression) :: parts) text result log) :
    ∃ hits found rest told, Hits expression (Cursor.start text) hits found rest ∧
      Rewritten markup parts (marking markup category found rest) result told ∧
      log = .passed category found.length :: told := by
  cases rewritten with
  | pass scanned others => exact ⟨_, _, _, _, scanned, others, rfl⟩

/-- A scan with an expression that consumes records no empty match. -/
theorem Regex.Hits.filled {text : List Char} {expression : Expr} (tame : expression.tame)
    (consumes : 0 < expression.minimalLength) {place : Cursor text}
    {hits : List (Cursor text × Cursor text)} {found : List Found} {rest : List Char}
    (scanned : Hits expression place hits found rest) :
    ∀ entry ∈ found, entry.matched.isEmpty = false := by
  induction scanned with
  | finished missing => exact nofun
  | @hit place first last hits found rest matched others induction =>
    have moved := Expr.first_consumes tame consumes matched
    intro entry listed
    rcases List.mem_cons.mp listed with rfl | further
    · cases empty : first.slice last with
      | nil =>
        have same := (Cursor.slice_nil_iff (Nat.le_of_lt moved)).mp empty
        omega
      | cons character others => rfl
    · exact induction entry further

namespace Highlight

/-- A pass that settles finds the matches of its expression, puts markup around them, and reports
how many there were. -/
theorem Settles.rewrites {markup : Markup} {category : Category} {pattern : Pattern}
    {expression : Expr} (reads : pattern.ReadAs expression)
    (consumes : 0 < expression.minimalLength) (present : pattern.isEmpty = false)
    {content : String} {first : Run}
    (settles : Settles markup content (category, some pattern) first) :
    ∃ hits found rest, Hits expression (Cursor.start content.toList) hits found rest ∧
      first.content.toList = marking markup category found rest ∧
      first.log = [.passed category found.length] := by
  cases settles with
  | skipped absent =>
    rw [active_some_iff.mpr ⟨rfl, present⟩] at absent
    cases absent
  | @completed _ _ regex _ compiled ended =>
    rw [Content.text_string] at compiled ended ⊢
    obtain ⟨hits, scanned⟩ := Regex.scan_hits (reads.stands compiled) consumes content.toList ended
    have filled := scanned.filled reads.tame consumes
    have counted : (regex.scan content.toList).marked.length =
        (regex.scan content.toList).found.length := by
      rw [Regex.Scan.marked, List.filter_eq_self.mpr]
      intro entry listed
      rw [filled entry listed]
      rfl
    refine ⟨hits, _, _, scanned, ?_⟩
    unfold RunOn.ofPass
    split
    · rename_i unmarked
      have none : (regex.scan content.toList).found = [] :=
        List.length_eq_zero_iff.mp (counted.symm.trans unmarked)
      have text := scanned.text_after reads.tame
      rw [none] at text ⊢
      exact ⟨text.symm, rfl⟩
    · refine ⟨String.toList_ofList, ?_⟩
      rw [counted]

/-- A run that completes rewrites the text as the expressions of its patterns say.

Proof: induction over the plan. -/
theorem passes_rewritten (markup : Markup) {plan : List (Category × Option Pattern)}
    {parts : List (Category × Expr)} (reads : List.Forall₂ Grammar.ReadAs plan parts)
    (consumes : ∀ part ∈ parts, 0 < part.2.minimalLength) {content : String}
    (completes : (passes markup plan content).error = none) :
    Rewritten markup parts content.toList (passes markup plan content).content.toList
      (passes markup plan content).log := by
  induction reads generalizing content with
  | nil => exact .done content.toList
  | @cons entry part plan parts same others induction =>
    obtain ⟨category, entry⟩ := entry
    obtain ⟨_, expression⟩ := part
    obtain ⟨rfl, pattern, rfl, present, means⟩ := same
    rcases passes_head markup (category, some pattern) content with
      ⟨first, settles, begun⟩ | ⟨_, error, _, _, _, failed⟩
    · obtain ⟨hits, found, rest, scanned, marked, told⟩ :=
        settles.rewrites means (consumes _ List.mem_cons_self) present
      rw [begun, RunOn.and_then_completed settles.error_none] at completes ⊢
      have later := induction (fun part listed => consumes part (List.mem_cons_of_mem _ listed))
        completes
      rw [marked] at later
      rw [told]
      exact .pass scanned later
    · rw [failed] at completes
      cases completes

/-- A run with the grammar of Dart that completes rewrites the text. -/
theorem dart_rewritten (markup : Markup) {content : String}
    (completes : (highlightWith markup Grammar.dart content).error = none) :
    Rewritten markup Dart.plan content.toList
      (highlightWith markup Grammar.dart content).content.toList
      (highlightWith markup Grammar.dart content).log := by
  have consumes : ∀ part ∈ Dart.plan, 0 < part.2.minimalLength := by decide +kernel
  exact passes_rewritten markup Dart.plan_read consumes completes

end Highlight

/-- There is one result of rewriting a text. -/
theorem Rewritten.unique {markup : Markup} {parts : List (Category × Expr)}
    {text result other : List Char} {log again : List Message}
    (rewritten : Rewritten markup parts text result log)
    (repeated : Rewritten markup parts text other again) : result = other ∧ log = again := by
  induction rewritten generalizing other again with
  | done text =>
    cases repeated with
    | done _ => exact ⟨rfl, rfl⟩
  | pass scanned others induction =>
    cases repeated with
    | pass rescanned further =>
      obtain ⟨_, rfl, rfl⟩ := scanned.unique rescanned
      obtain ⟨rfl, rfl⟩ := induction further
      exact ⟨rfl, rfl⟩

/-- Expressions within a line rewrite two texts with a line feed between them as they rewrite each
of the two.

Proof: induction over the passes. What each of them leaves of the whole text is what it leaves of
the two parts, with the line feed between them. -/
theorem Rewritten.lines {markup : Markup} {parts : List (Category × Expr)}
    (line : ∀ part ∈ parts, part.2.inLine ∧ part.2.tame)
    {former latter resultFormer resultLatter : List Char} {logFormer logLatter : List Message}
    (first : Rewritten markup parts former resultFormer logFormer)
    (second : Rewritten markup parts latter resultLatter logLatter) :
    ∃ log, Rewritten markup parts (former ++ '\n' :: latter)
      (resultFormer ++ '\n' :: resultLatter) log := by
  induction first generalizing latter resultLatter logLatter with
  | done former =>
    cases second with
    | done latter => exact ⟨[], .done _⟩
  | pass scanned others induction =>
    cases second with
    | pass behind further =>
      obtain ⟨inLine, tame⟩ := line _ List.mem_cons_self
      obtain ⟨log, onward⟩ :=
        induction (fun part listed => line part (List.mem_cons_of_mem _ listed)) further
      obtain ⟨copies, found, rest, both, marks⟩ := scanned.lines inLine tame behind
      rw [← marks] at onward
      exact ⟨_, .pass both onward⟩

end Highlighter

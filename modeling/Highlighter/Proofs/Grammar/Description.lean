import Highlighter.Grammar.Description
import Mathlib

/-!
# What an accepted description says

A description that is accepted has a valid name, and each of its extensions is valid without the
periods at its begin. Nothing else is asked of it. The grammar bears the name as it is written and
lists the extensions without their periods, in the order of the description.
-/

namespace Highlighter

/-- A text that describes a grammar is read as a description of it. -/
theorem Grammar.parse_eq_ok_iff {text : String} {grammar : Grammar} {log : List Message} :
    Grammar.parse text = .ok (grammar, log) ↔
      ∃ description, Description.read text = .ok description ∧
        description.grammar = .ok grammar ∧ description.log grammar = log := by
  rw [Grammar.parse]
  cases Description.read text with
  | error problem => simp
  | ok description =>
    cases made : description.grammar with
    | error error => simp [made, Except.map]
    | ok result =>
      simp only [Except.map, Except.ok.injEq, Prod.mk.injEq, exists_eq_left', made]
      constructor
      · rintro ⟨rfl, told⟩
        exact ⟨rfl, told⟩
      · rintro ⟨rfl, told⟩
        exact ⟨rfl, told⟩

namespace Description

/-- A grammar is made of a description with a valid name and valid extensions, and of no other. -/
theorem grammar_eq_ok_iff {description : Description} {grammar : Grammar} :
    description.grammar = .ok grammar ↔
      isValidName description.name ∧
        ∃ extensions, trimmed description.extensions = .ok extensions ∧
          grammar = {
            name := description.name
            extensions := extensions
            keywords := if description.keywords.isEmpty then none
              else some (Pattern.keywords description.keywords)
            comments := description.comments
            numbers := description.numbers
            literals := description.literals
            classes := description.classes
            identifiers := description.identifiers } := by
  unfold Description.grammar
  cases isValidName description.name with
  | false => simp [bind, Except.bind, throw, throwThe, MonadExceptOf.throw]
  | true =>
    cases trimmed description.extensions with
    | error error => simp [bind, Except.bind]
    | ok extensions =>
      simp only [bind, Except.bind, pure, Except.pure, Bool.not_true, Bool.false_eq_true, if_false,
        Except.ok.injEq, exists_eq_left', true_and]
      exact eq_comm

/-- The extensions that are kept are those that are written, without the periods at their begin;
all of them are valid. -/
theorem trimmed_eq_ok_iff {written kept : List String} :
    trimmed written = .ok kept ↔ kept = written.map withoutDots ∧
      ∀ extension ∈ written, isValidExtension (withoutDots extension) := by
  induction written generalizing kept with
  | nil =>
    rw [trimmed, Except.ok.injEq]
    constructor
    · rintro rfl
      exact ⟨rfl, nofun⟩
    · rintro ⟨rfl, _⟩
      rfl
  | cons extension others induction =>
    rw [trimmed]
    by_cases valid : isValidExtension (withoutDots extension)
    · rw [if_pos valid]
      cases rest : trimmed others with
      | error error =>
        have refused : ¬ ∀ other ∈ others, isValidExtension (withoutDots other) := by
          intro all
          have accepted := induction.mpr ⟨rfl, all⟩
          rw [rest] at accepted
          cases accepted
        simp only [Except.map, reduceCtorEq, List.forall_mem_cons, refused, and_false]
      | ok bare =>
        obtain ⟨rfl, all⟩ := induction.mp rest
        simp only [Except.map, Except.ok.injEq, List.map_cons, List.forall_mem_cons, valid, true_and]
        constructor
        · rintro rfl
          exact ⟨rfl, all⟩
        · rintro ⟨rfl, _⟩
          rfl
    · rw [if_neg valid]
      simp [valid]

end Description

end Highlighter

import Highlighter.Proofs.Markup.Tokens
import Mathlib

/-!
# How often a class is named in annotated text

The end of an opening tag, from the class name on, stands in orderly text only where a pass has put
it: no text of the source and no other piece of markup gives rise to it, not even where a closing tag
has torn an opening tag. So the marked matches of a category can be counted in the text.
-/

namespace Highlighter.Markup

/-- How often the characters stand in the text one behind the other. -/
def occurrences (sought text : List Char) : Nat := text.tails.countP sought.isPrefixOf

variable {token : Token} {others : List Token}

/-- The end of an opening tag is ahead inside of a piece only if the piece is that end, and none of it
has been passed.

Proof: outside of tags its characters would be characters of the source, which are written
otherwise. At a guarded place the rest of a piece is ahead, and of these only the end itself begins
like it. -/
theorem name_ahead_iff (category : Category) {inside : Bool}
    (orderly : Orderly inside (token :: others))
    {passed ahead : List Char} (text : token.text = passed ++ ahead) (left : ahead ≠ []) :
    (Token.name category).text <+: ahead ++ written others ↔
      token = .name category ∧ passed = [] := by
  constructor
  · rintro ⟨rest, same⟩
    have cut : written (token :: others) = passed ++ (ahead ++ written others) := by
      rw [written_cons, text, List.append_assoc]
    rcases place_cases orderly cut with
      ⟨former, latter, _, _, begins, _, ordered⟩ |
        ⟨former, piece, latter, _, _, gone, coming, split, _, _, _, guarded⟩
    · have plain : ∀ character ∈ (Token.name category).text, character ≠ '<' ∧ character ≠ '&' := by
        cases category <;> decide
      obtain ⟨_, _, single, _⟩ := plain_stretch ordered plain (begins.trans same.symm)
      have escaped : written ((Token.name category).text.map Token.source) ≠
          (Token.name category).text := by
        cases category <;> decide
      exact absurd single escaped
    · have alone : ∀ piece ∈ Token.long, ∀ coming ∈ piece.guards,
          (Token.name category).text <+: coming ∨ coming <+: (Token.name category).text →
            piece = .name category ∧ coming = (Token.name category).text := by
        cases category <;> decide
      have either : (Token.name category).text <+: coming ∨ coming <+: (Token.name category).text :=
        List.prefix_or_prefix_of_prefix ⟨rest, same⟩ ⟨_, guarded.behind.symm⟩
      obtain ⟨rfl, whole⟩ := alone piece (mem_long guarded.guarded) coming guarded.guarded either
      have none : gone = [] := by
        have lengths := congrArg List.length guarded.text
        rw [whole, List.length_append] at lengths
        exact List.length_eq_zero_iff.mp (by omega)
      have before := guarded.before
      rw [none, List.append_nil] at before
      cases former with
      | nil =>
        obtain ⟨rfl, _⟩ := List.cons.inj split
        exact ⟨rfl, before⟩
      | cons head former =>
        obtain ⟨rfl, _⟩ := List.cons.inj split
        have lengths := congrArg List.length before
        have positive := List.length_pos_iff.mpr left
        rw [written_cons, text, List.length_append, List.length_append] at lengths
        omega
  · rintro ⟨rfl, rfl⟩
    rw [List.nil_append] at text
    rw [← text]
    exact List.prefix_append _ _

/-- The end of an opening tag stands in the text as often as among the pieces. -/
theorem occurrences_name {inside : Bool} {tokens : List Token} (orderly : Orderly inside tokens)
    (category : Category) :
    occurrences (Token.name category).text (written tokens) = tokens.count (.name category) := by
  induction tokens generalizing inside with
  | nil =>
    cases category <;> decide
  | cons token others induction =>
    obtain ⟨behind, _, ordered⟩ := orderly_cons_iff.mp orderly
    -- Induction over what is left of the piece.
    have counted (ahead : List Char) : ∀ passed, token.text = passed ++ ahead →
        occurrences (Token.name category).text (ahead ++ written others) =
          others.count (.name category) +
            if token = .name category ∧ passed = [] ∧ ahead ≠ [] then 1 else 0 := by
      induction ahead with
      | nil =>
        intro passed _
        rw [if_neg (by simp), List.nil_append, induction ordered, Nat.add_zero]
      | cons character rest further =>
        intro passed text
        have next := further (passed ++ [character]) (by rw [text]; simp)
        rw [if_neg (by simp), Nat.add_zero] at next
        have here := name_ahead_iff category orderly text (List.cons_ne_nil _ _)
        rw [List.cons_append] at here ⊢
        rw [occurrences, List.tails_cons, List.countP_cons]
        change occurrences (Token.name category).text (rest ++ written others) + _ = _
        rw [next]
        congr 1
        simp only [List.isPrefixOf_iff_prefix, here, ne_eq, reduceCtorEq, not_false_eq_true,
          and_true]
    rw [written_cons, counted token.text [] rfl, List.count_cons]
    simp [text_ne_nil token, beq_iff_eq]

end Highlighter.Markup

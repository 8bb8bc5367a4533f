import Highlighter.Proofs.Dart.Sparing
import Highlighter.Proofs.Highlight.Wrapping

/-!
# No markup is injected

However often text is marked, `<` and `&` only come where a tag or an entity begins. No text
of the source makes a pass put markup into the begin of a tag, into a closing tag or into an
entity. An attribute can be cut off from its class name by a closing tag, and where this
happens is the matter of another module; the begins of tags stay whole even then.

The invariant is that the text consists of orderly pieces. It is kept by every pass, hence
by every run, whether the run fails or not.
-/

namespace Highlighter

open Markup

/-- Wherever `<` or `&` comes, it begins a tag or an entity. -/
structure Unbroken (text : List Char) : Prop where
  tags : ∀ before after, text = before ++ '<' :: after →
    "<span class=\"".toList <+: '<' :: after ∨ "</span>".toList <+: '<' :: after
  entities : ∀ before after, text = before ++ '&' :: after →
    "&amp;".toList <+: '&' :: after ∨ "&lt;".toList <+: '&' :: after ∨
      "&gt;".toList <+: '&' :: after

/-- Outside of tags, `&` begins an entity. -/
theorem Markup.entity_of_ampersand {tokens : List Token} (orderly : Orderly false tokens)
    {rest : List Char} (begins : written tokens = '&' :: rest) :
    ∃ character ∈ ['&', '<', '>'], (Token.source character).text <+: '&' :: rest := by
  cases tokens with
  | nil => cases begins
  | cons token others =>
    obtain ⟨behind, passes, _⟩ := orderly_cons_iff.mp orderly
    rw [written_cons] at begins
    cases token with
    | source character =>
      refine ⟨character, ?_, begins ▸ List.prefix_append _ _⟩
      by_cases special : Entity.isSpecial character
      · simpa [Entity.isSpecial, or_assoc] using special
      · rw [text_of_plain (by simpa using special)] at begins
        simp [(List.cons.inj begins).1]
    | opening => cases begins
    | name category => cases passes
    | closing => cases begins

/-- In orderly text `<` and `&` begin tags and entities. -/
theorem Markup.orderly_unbroken {tokens : List Token} (orderly : Orderly false tokens) :
    Unbroken (written tokens) := by
  constructor
  · intro before after cut
    obtain ⟨_, tag, latter, _, _, either, same⟩ := tag_at_less orderly cut
    rcases List.mem_pair.mp either with rfl | rfl
    · exact .inl ⟨written latter, same.symm⟩
    · exact .inr ⟨written latter, same.symm⟩
  · intro before after cut
    rcases place_cases orderly cut with
      ⟨_, latter, _, _, ended, _, rest⟩ | ⟨_, _, _, _, _, _, _, _, _, _, _, guarded⟩
    · obtain ⟨character, either, begins⟩ := entity_of_ampersand rest ended
      simp only [List.mem_cons, List.not_mem_nil, or_false] at either
      rcases either with rfl | rfl | rfl
      · exact .inl begins
      · exact .inr (.inl begins)
      · exact .inr (.inr begins)
    · exact (not_guarded_of_foreign (by decide) guarded rfl).elim

/-- The text consists of orderly pieces. -/
def Composed (content : String) : Prop :=
  ∃ tokens, Orderly false tokens ∧ written tokens = content.toList

/-- The text of a page is composed. -/
theorem composed_escape (source : String) : Composed (Entity.escapeText source) :=
  ⟨_, orderly_source source.toList, written_source source⟩

/-- A run of Dart leaves composed text behind, whether it fails or not. -/
theorem Composed.highlight {content : String} (composed : Composed content) :
    Composed (highlightWith Markup.html Grammar.dart content).content := by
  obtain ⟨tokens, orderly, text⟩ := composed
  obtain ⟨result, layered, same⟩ := Highlight.passes_layered Dart.plan_read
    (fun part listed => (Dart.plan_spares part listed).imp fun _ spares => ⟨spares, False.elim⟩)
    orderly text
  exact ⟨result, layered.orderly, same⟩

/-- Several runs leave composed text behind. -/
theorem Composed.times {content : String} (composed : Composed content) (count : Nat) :
    Composed (highlightTimes Markup.html Grammar.dart count content).content := by
  induction count generalizing content with
  | zero => exact composed
  | succ count induction =>
    simp only [highlightTimes]
    split
    · exact composed.highlight
    · dsimp only
      exact induction composed.highlight

/-- However often the text of a page is marked, `<` and `&` come only where a tag or an entity
begins: behind any number of runs, where each takes what the run before has left even if that
run has failed, and behind runs that end with the first failure. -/
theorem runs_inject_no_markup (source : String) (count : Nat) :
    Unbroken ((fun content => (highlight Grammar.dart content).content)^[count]
      (Entity.escapeText source)).toList ∧
    Unbroken (highlightTimes Markup.html Grammar.dart count
      (Entity.escapeText source)).content.toList := by
  have unbroken {content : String} (composed : Composed content) : Unbroken content.toList := by
    obtain ⟨tokens, orderly, text⟩ := composed
    exact text ▸ orderly_unbroken orderly
  constructor
  · refine unbroken ?_
    induction count with
    | zero => exact composed_escape source
    | succ count induction =>
      rw [Function.iterate_succ_apply']
      exact induction.highlight
  · exact unbroken ((composed_escape source).times count)

end Highlighter

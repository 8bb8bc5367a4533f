import Highlighter.Proofs.Markup.Marking
import Highlighter.Proofs.Regex.Matched

/-!
# How an expression is shown to spare the markup

A match covers whole pieces if it consists of characters that need no entity, or if it ends
at a character of the source. A character that is ahead at no guarded place can only be one
of the source, so it serves both to end a match and to begin one.

Where a match could begin like the rest of a piece, that rest is compared with it: up to the
first character that the match does not pass over, they are the same.
-/

namespace Highlighter.Markup

open Text (Cursor)
open Regex (Expr CharClass)

variable {text : List Char} {first last : Cursor text} {tokens : List Token}

/-- A stretch of source characters that need no entity is covered. -/
theorem covers_of_plain (orderly : Orderly false tokens) (written : written tokens = first.after)
    {stretch : List Char} (ahead : first.after = stretch ++ last.after)
    (plain : ∀ character ∈ stretch, character ≠ '<' ∧ character ≠ '&') :
    Covers True first last tokens := by
  obtain ⟨latter, rfl, same, behind, reached, rest⟩ :=
    plain_stretch orderly plain (written.trans ahead)
  exact ⟨_, latter, false, rfl, by rw [same, Cursor.slice_of_after ahead], behind, reached, rest,
    fun _ => rfl⟩

/-- A stretch up to a character that no guarded place has ahead is covered. -/
theorem covers_of_foreign_ahead (orderly : Orderly false tokens)
    (written : written tokens = first.after) {character : Char} (foreign : Foreign character)
    (unescaped : character ≠ '<' ∧ character ≠ '&') {stretch rest : List Char}
    (ahead : first.after = stretch ++ last.after) (next : last.after = character :: rest) :
    Covers True first last tokens := by
  have cut := written.trans ahead
  rw [next] at cut
  obtain ⟨former, latter, rfl, single, begun, behind, reached, onward⟩ :=
    foreign_source orderly foreign unescaped cut
  refine ⟨former, _, false, rfl, by rw [begun, Cursor.slice_of_after ahead], ?_, reached,
    orderly_cons_iff.mpr ⟨false, rfl, onward⟩, fun _ => rfl⟩
  rw [written_cons, single, behind, next, List.singleton_append]

/-- A stretch that ends with a character that no guarded place has ahead is covered. -/
theorem covers_of_foreign_end (orderly : Orderly false tokens)
    (written : written tokens = first.after) {character : Char} (foreign : Foreign character)
    (unescaped : character ≠ '<' ∧ character ≠ '&') {stretch : List Char}
    (ahead : first.after = stretch ++ character :: last.after) :
    Covers True first last tokens := by
  obtain ⟨former, latter, rfl, single, begun, behind, reached, onward⟩ :=
    foreign_source orderly foreign unescaped (written.trans ahead)
  have slice : first.slice last = stretch ++ [character] :=
    Cursor.slice_of_after (by rw [ahead, List.append_assoc, List.singleton_append])
  refine ⟨former ++ [.source character], latter, false, by simp, ?_, behind, ?_, onward,
    fun _ => rfl⟩
  · rw [written_append, begun, slice, written_cons, single]
    rfl
  · rw [state_append, reached]
    rfl

/-- A stretch up to the end of the text is covered. -/
theorem covers_of_end (orderly : Orderly false tokens) (written : written tokens = first.after)
    {stretch : List Char} (ahead : first.after = stretch ++ last.after) (ended : last.after = []) :
    Covers True first last tokens := by
  refine ⟨tokens, [], false, by simp, ?_, ended.symm, orderly, rfl, fun _ => rfl⟩
  rw [Cursor.slice_of_after ahead, written, ahead, ended, List.append_nil]

/-- Nothing that begins with the character is guarded. -/
theorem not_guarded_of_foreign {former latter : List Token} {token : Token}
    {passed ahead gap after rest : List Char} {character : Char} (foreign : Foreign character)
    (guarded : Guarded former token passed ahead latter gap after)
    (begins : after = character :: rest) : False := by
  obtain ⟨listed, head, others, rfl, same⟩ := guarded.head
  obtain ⟨rfl, _⟩ := List.cons.inj (begins.symm.trans same)
  exact foreign _ listed rfl

/-- The characters of a set that holds no first character of a guard are ahead at no guarded
place. -/
theorem foreign_of_set {set : CharClass}
    (apart : ∀ first ∈ guardBegins, set.contains first = false)
    {character : Char} (contained : set.contains character) : Foreign character := by
  refine foreign_iff.mpr fun listed => ?_
  rw [apart character listed] at contained
  cases contained

/-- The characters of a set without `<` and `&` need no entity and begin no tag. -/
theorem plain_of_set {set : CharClass}
    (apart : set.contains '<' = false ∧ set.contains '&' = false) {character : Char}
    (contained : set.contains character) : character ≠ '<' ∧ character ≠ '&' := by
  constructor
  · rintro rfl
    exact absurd contained (by simp [apart.1])
  · rintro rfl
    exact absurd contained (by simp [apart.2])

/-- An expression that consumes only characters that no guarded place has ahead is tidy. -/
theorem spares_of_foreign {expression : Expr} (tame : expression.tame)
    (consumes : 0 < expression.minimalLength)
    (within : expression.Within fun character =>
      Foreign character ∧ character ≠ '<' ∧ character ≠ '&') : Spares (fun _ => True) expression where
  tame := tame
  consumes := consumes
  unguarded preferred _ _ guarded := by
    obtain ⟨character, others, ahead, properties⟩ :=
      Expr.filled_stretch _ (List.mem_of_mem_head? preferred) tame within consumes
    exact not_guarded_of_foreign (properties character List.mem_cons_self).1 guarded ahead
  covers preferred orderly begins := by
    obtain ⟨stretch, ahead, properties⟩ :=
      Expr.stretch_within _ (List.mem_of_mem_head? preferred) tame within
    exact covers_of_plain orderly begins ahead fun character listed =>
      (properties character listed).2

/-- If none of the signs that guards end with has the property, then a guard holds all of a
stretch with the property that is ahead, and the character behind it. -/
theorem guard_of_stretch {property : Char → Prop}
    (without : ∀ sign ∈ [';', '"', '>'], ¬ property sign)
    {former latter : List Token} {token : Token} {passed ahead gap after stretch rest : List Char}
    (guarded : Guarded former token passed ahead latter gap after)
    (begins : after = stretch ++ rest) (within : ∀ character ∈ stretch, property character) :
    ∃ next others, ahead = stretch ++ next :: others ∧ rest = next :: (others ++ written latter) := by
  have marked : ∀ ahead ∈ guardTexts, ∃ sign ∈ ahead, sign ∈ [';', '"', '>'] := by decide +kernel
  obtain ⟨sign, member, ends⟩ := marked ahead guarded.head.1
  rcases List.append_eq_append_iff.mp (guarded.behind.symm.trans begins) with
    ⟨further, inside, _⟩ | ⟨further, same, remaining⟩
  · exact absurd (within sign (inside ▸ List.mem_append_left _ member)) (without sign ends)
  · cases further with
    | nil =>
      rw [List.append_nil] at same
      exact absurd (within sign (same ▸ member)) (without sign ends)
    | cons next others => exact ⟨next, others, same, remaining⟩

/-- Outside of tags, `<` begins an opening or a closing tag. -/
theorem tag_of_less (orderly : Orderly false tokens) {rest : List Char}
    (begins : written tokens = '<' :: rest) :
    ∃ tag others, tokens = tag :: others ∧ tag ∈ [Token.opening, Token.closing] ∧
      '<' :: rest = tag.text ++ written others := by
  cases tokens with
  | nil => cases begins
  | cons token others =>
    rw [written_cons] at begins
    cases token with
    | source character =>
      by_cases special : Entity.isSpecial character
      · simp only [Entity.isSpecial, Bool.or_eq_true, decide_eq_true_eq] at special
        rcases special with (rfl | rfl) | rfl <;> cases begins
      · rw [text_of_plain (by simpa using special)] at begins
        obtain ⟨rfl, _⟩ := List.cons.inj begins
        exact absurd rfl special
    | opening => exact ⟨_, others, rfl, by simp, begins.symm⟩
    | name category =>
      obtain ⟨behind, passes, _⟩ := orderly_cons_iff.mp orderly
      cases passes
    | closing => exact ⟨_, others, rfl, by simp, begins.symm⟩

/-- Wherever `<` comes, it begins an opening or a closing tag.

Proof: it does so outside of tags. At a guarded place, only a whole closing tag can be ahead
that begins with it. -/
theorem tag_at_less {inside : Bool} (orderly : Orderly inside tokens) {before after : List Char}
    (cut : written tokens = before ++ '<' :: after) :
    ∃ former tag latter, tokens = former ++ tag :: latter ∧ written former = before ∧
      tag ∈ [Token.opening, Token.closing] ∧ '<' :: after = tag.text ++ written latter := by
  rcases place_cases orderly cut with
    ⟨former, latter, rfl, begun, ended, _, rest⟩ |
      ⟨former, token, latter, _, _, passed, ahead, rfl, _, _, _, guarded⟩
  · obtain ⟨tag, others, rfl, either, text⟩ := tag_of_less rest ended
    exact ⟨former, tag, others, rfl, begun, either, text⟩
  · have closing : ∀ token ∈ Token.long, ∀ ahead ∈ token.guards, ahead.head? = some '<' →
        token = .closing ∧ ahead = Token.closing.text := by decide
    obtain ⟨_, head, others, rfl, same⟩ := guarded.head
    obtain ⟨rfl, rfl⟩ := List.cons.inj same
    obtain ⟨rfl, whole⟩ := closing token (mem_long guarded.guarded) _ guarded.guarded rfl
    have none : passed = [] := by
      have text := guarded.text
      rw [whole] at text
      simpa using text
    refine ⟨former, .closing, latter, rfl, ?_, by simp, ?_⟩
    · rw [guarded.before, none, List.append_nil]
    · rw [← whole, List.cons_append]

/-- Inside a tag, closing tags come before the end of the class name. -/
theorem name_ahead (orderly : Orderly true tokens) :
    ∃ clean rest, written tokens = clean ++ '"' :: '>' :: rest ∧
      ∀ character ∈ clean, character ≠ '"' ∧ character ≠ '\\' := by
  induction tokens with
  | nil => cases orderly
  | cons token others induction =>
    obtain ⟨behind, passes, rest⟩ := orderly_cons_iff.mp orderly
    rw [written_cons]
    cases token with
    | source character => cases passes
    | opening => cases passes
    | name category =>
      refine ⟨category.className.toList, written others, by simp [Token.text, Markup.html], ?_⟩
      cases category <;> decide
    | closing =>
      obtain rfl := Option.some.inj passes
      obtain ⟨clean, more, same, plain⟩ := induction rest
      refine ⟨Token.closing.text ++ clean, more, by rw [same, List.append_assoc], ?_⟩
      have tag : ∀ character ∈ Token.closing.text, character ≠ '"' ∧ character ≠ '\\' := by decide
      intro character listed
      rcases List.mem_append.mp listed with begun | ended
      · exact tag character begun
      · exact plain character ended

/-- A guarded place in front of a double quote is the one inside an opening tag, or in front of
the end of a class name. -/
theorem guarded_quote {former latter : List Token} {token : Token}
    {passed ahead gap rest : List Char}
    (guarded : Guarded former token passed ahead latter gap ('"' :: rest)) :
    (token = .opening ∧ ahead = ['"'] ∧ rest = written latter) ∨ rest.head? = some '>' := by
  have guards : ∀ token ∈ Token.long, ∀ ahead ∈ token.guards, ahead.head? = some '"' →
      token = .opening ∧ ahead = ['"'] ∨ ahead = ['"', '>'] := by decide
  obtain ⟨_, head, others, rfl, same⟩ := guarded.head
  obtain ⟨rfl, rfl⟩ := List.cons.inj same
  rcases guards token (mem_long guarded.guarded) _ guarded.guarded rfl with ⟨rfl, one⟩ | two
  · obtain rfl := (List.cons.inj one).2
    exact .inl ⟨rfl, rfl, rfl⟩
  · obtain rfl := (List.cons.inj two).2
    exact .inr rfl

end Highlighter.Markup

import Highlighter.Markup
import Highlighter.Proofs.Text.Cursor
import Mathlib

/-!
# The pieces of annotated text

Annotated text is made of pieces: characters of the source, some of them written as
entities, and the pieces of tags. An opening tag is two pieces, cut behind the quote that
begins its attribute, because a match may end there; between the two, the text is inside a
tag, and only closing tags may stand there. A list of pieces is orderly if it begins and
ends outside of tags and keeps to this.

This is weaker than being well tagged: an attribute may be cut off from its class name by a
closing tag. But it is kept by all the passes, and it says where a match can begin and end:
`place_cases` finds every place of an orderly text either between two pieces outside of tags
or guarded by the rest of a piece that no pattern may begin with.
-/

namespace Highlighter.Markup

/-- A piece of annotated text. -/
inductive Token where
  /-- A character of the source, as it is written in a page. -/
  | source (character : Char)
  /-- The begin of an opening tag, up to the quote of its attribute. -/
  | opening
  /-- The class name of an opening tag, up to the end of the tag. -/
  | name (category : Category)
  | closing
  deriving DecidableEq, Repr

namespace Token

/-- The text of a piece. -/
def text : Token → List Char
  | source character => Entity.ofTextCharacter character
  | opening => html.opening.toList
  | name category => category.className.toList ++ html.middle.toList
  | closing => html.closing.toList

/-- Whether the text is inside an opening tag behind the piece, if it may stand where it
does. -/
def pass? : Bool → Token → Option Bool
  | inside, closing => some inside
  | false, source _ => some false
  | false, opening => some true
  | true, name _ => some false
  | _, _ => none

/-- The pieces that are longer than a character. -/
def long : List Token :=
  [source '&', source '<', source '>', opening, closing, name .keyword, name .literal,
   name .function, name .number, name .type, name .comment, name .identifier]

/-- How much of the piece must be passed at a place for the piece to guard it: some of it,
or nothing if the piece can stand inside a tag. -/
def exposed : Token → Nat
  | source _ | opening => 1
  | name _ | closing => 0

/-- What can be ahead at a place that the piece guards: the rest of its text. -/
def guards (token : Token) : List (List Char) :=
  (List.range' token.exposed (token.text.length - token.exposed)).map token.text.drop

end Token

/-- The text of a list of pieces. -/
def written (tokens : List Token) : List Char := tokens.flatMap Token.text

/-- Whether the text is inside an opening tag behind the pieces, if each of them may stand
where it does. -/
def state? (inside : Bool) (tokens : List Token) : Option Bool := tokens.foldlM Token.pass? inside

/-- The pieces may stand where they do, and all tags are complete behind them. -/
def Orderly (inside : Bool) (tokens : List Token) : Prop := state? inside tokens = some false

/-- All that can be ahead at guarded places. -/
def guardTexts : List (List Char) := Token.long.flatMap Token.guards

theorem written_append (former latter : List Token) :
    written (former ++ latter) = written former ++ written latter := List.flatMap_append

theorem written_cons (token : Token) (others : List Token) :
    written (token :: others) = token.text ++ written others := List.flatMap_cons

theorem state_append (inside : Bool) (former latter : List Token) :
    state? inside (former ++ latter) =
      (state? inside former).bind fun middle => state? middle latter := by
  rw [state?, List.foldlM_append]
  rfl

theorem state_cons (inside : Bool) (token : Token) (others : List Token) :
    state? inside (token :: others) =
      (Token.pass? inside token).bind fun behind => state? behind others := by
  rw [state?, List.foldlM_cons]
  rfl

/-- Pieces are orderly if the later ones are where the former leave the text. -/
theorem orderly_append_iff {inside : Bool} {former latter : List Token} :
    Orderly inside (former ++ latter) ↔
      ∃ middle, state? inside former = some middle ∧ Orderly middle latter := by
  rw [Orderly, state_append, Option.bind_eq_some_iff]
  rfl

/-- Pieces are orderly if the first may stand where it does and the others behind it. -/
theorem orderly_cons_iff {inside : Bool} {token : Token} {others : List Token} :
    Orderly inside (token :: others) ↔
      ∃ behind, Token.pass? inside token = some behind ∧ Orderly behind others := by
  rw [Orderly, state_cons, Option.bind_eq_some_iff]
  rfl

/-- Behind the first piece of an opening tag the text is inside a tag. -/
theorem not_outside_opening {inside : Bool} {begun : List Token} :
    state? inside (begun ++ [.opening]) ≠ some false := by
  rw [state_append]
  cases state? inside begun with
  | none => nofun
  | some before => cases before <;> nofun

/-- A character that needs no entity is written as it is. -/
theorem text_of_plain {character : Char} (plain : Entity.isSpecial character = false) :
    (Token.source character).text = [character] := by
  simp only [Entity.isSpecial, Bool.or_eq_false_iff, decide_eq_false_iff_not] at plain
  obtain ⟨⟨ampersand, less⟩, greater⟩ := plain
  rw [Token.text, Entity.ofTextCharacter]
  all_goals simpa

/-- Every piece has a text. -/
theorem text_ne_nil (token : Token) : token.text ≠ [] := by
  cases token with
  | source character =>
    by_cases special : Entity.isSpecial character
    · simp only [Entity.isSpecial, Bool.or_eq_true, decide_eq_true_eq] at special
      rcases special with (rfl | rfl) | rfl <;> decide
    · rw [text_of_plain (by simpa using special)]
      exact List.cons_ne_nil _ _
  | opening => decide
  | name category => cases category <;> decide
  | closing => decide

/-- Wherever a text of pieces is cut, the cut is between two pieces or inside one. -/
theorem cut_written {tokens : List Token} {gap after : List Char}
    (cut : written tokens = gap ++ after) :
    (∃ former latter, tokens = former ++ latter ∧ written former = gap ∧ written latter = after) ∨
    (∃ former token latter passed ahead, tokens = former ++ token :: latter ∧
      token.text = passed ++ ahead ∧ passed ≠ [] ∧ ahead ≠ [] ∧
      gap = written former ++ passed ∧ after = ahead ++ written latter) := by
  induction tokens generalizing gap with
  | nil =>
    obtain ⟨rfl, rfl⟩ := List.append_eq_nil_iff.mp cut.symm
    exact .inl ⟨[], [], rfl, rfl, rfl⟩
  | cons token others induction =>
    rw [written_cons] at cut
    rcases List.append_eq_append_iff.mp cut with ⟨behind, rfl, rest⟩ | ⟨ahead, within, rfl⟩
    · rcases induction rest with
        ⟨former, latter, rfl, rfl, rfl⟩ |
          ⟨former, inner, latter, passed, ahead, rfl, text, begun, left, rfl, rfl⟩
      · exact .inl ⟨token :: former, latter, rfl, written_cons _ _, rfl⟩
      · refine .inr ⟨token :: former, inner, latter, passed, ahead, rfl, text, begun, left, ?_, rfl⟩
        rw [written_cons, List.append_assoc]
    · by_cases passed : gap = []
      · subst passed
        exact .inl ⟨[], token :: others, rfl, rfl, by rw [written_cons, within, List.nil_append]⟩
      · by_cases left : ahead = []
        · subst left
          refine .inl ⟨[token], others, rfl, ?_, rfl⟩
          rw [written_cons, within, List.append_nil]
          exact List.append_nil _
        · exact .inr ⟨[], token, others, gap, ahead, rfl, within, passed, left, rfl, rfl⟩

/-- The rest of a piece guards the places inside it. -/
theorem mem_guards {token : Token} {passed ahead : List Char} (text : token.text = passed ++ ahead)
    (enough : token.exposed ≤ passed.length) (left : ahead ≠ []) : ahead ∈ token.guards := by
  refine List.mem_map.mpr ⟨passed.length, ?_, by rw [text, List.drop_left]⟩
  have remaining := List.length_pos_iff.mpr left
  rw [List.mem_range'_1, text, List.length_append]
  omega

/-- Only the pieces that are longer than a character guard places. -/
theorem mem_long {token : Token} {ahead : List Char} (guarded : ahead ∈ token.guards) :
    token ∈ Token.long := by
  cases token with
  | source character =>
    by_cases special : Entity.isSpecial character
    · simp only [Entity.isSpecial, Bool.or_eq_true, decide_eq_true_eq] at special
      rcases special with (rfl | rfl) | rfl <;> decide
    · rw [Token.guards, text_of_plain (by simpa using special)] at guarded
      cases guarded
  | opening => decide
  | name category => cases category <;> decide
  | closing => decide

/-- All that is ahead at guarded places is listed. -/
theorem mem_guard_texts {token : Token} {ahead : List Char} (guarded : ahead ∈ token.guards) :
    ahead ∈ guardTexts :=
  List.mem_flatMap.mpr ⟨token, mem_long guarded, guarded⟩

/-- A place is guarded if what is ahead begins with the rest of a piece that must be left
whole there. -/
structure Guarded (former : List Token) (token : Token) (passed ahead : List Char)
    (latter : List Token) (gap after : List Char) : Prop where
  text : token.text = passed ++ ahead
  guarded : ahead ∈ token.guards
  before : gap = written former ++ passed
  behind : after = ahead ++ written latter

/-- Every place of an orderly text is between two pieces outside of tags, or guarded.

Proof: a cut inside a piece is guarded by the rest of the piece, and a cut between two pieces
inside a tag by the second, which must be a class name or a closing tag. -/
theorem place_cases {inside : Bool} {tokens : List Token} (orderly : Orderly inside tokens)
    {gap after : List Char} (cut : written tokens = gap ++ after) :
    (∃ former latter, tokens = former ++ latter ∧ written former = gap ∧ written latter = after ∧
      state? inside former = some false ∧ Orderly false latter) ∨
    (∃ former token latter before behind passed ahead, tokens = former ++ token :: latter ∧
      state? inside former = some before ∧ Token.pass? before token = some behind ∧
      Orderly behind latter ∧ Guarded former token passed ahead latter gap after) := by
  rcases cut_written cut with
    ⟨former, latter, rfl, rfl, rfl⟩ |
      ⟨former, token, latter, passed, ahead, rfl, text, begun, left, before, behind⟩
  · obtain ⟨middle, reached, rest⟩ := orderly_append_iff.mp orderly
    cases middle with
    | false => exact .inl ⟨former, latter, rfl, rfl, rfl, reached, rest⟩
    | true =>
      cases latter with
      | nil => cases rest
      | cons token latter =>
        obtain ⟨behind, passed, rest⟩ := orderly_cons_iff.mp rest
        have exposed : token.exposed = 0 := by
          cases token <;> first | rfl | cases passed
        refine .inr ⟨former, token, latter, true, behind, [], token.text, rfl, reached, passed, rest,
          rfl, mem_guards (List.nil_append _).symm (by simp [exposed]) (text_ne_nil token), ?_,
          written_cons _ _⟩
        rw [List.append_nil]
  · obtain ⟨middle, reached, rest⟩ := orderly_append_iff.mp orderly
    obtain ⟨onward, passes, rest⟩ := orderly_cons_iff.mp rest
    have enough : token.exposed ≤ passed.length := by
      have positive := List.length_pos_iff.mpr begun
      cases token <;> simp only [Token.exposed] <;> omega
    exact .inr ⟨former, token, latter, middle, onward, passed, ahead, rfl, reached, passes, rest,
      text, mem_guards text enough left, before, behind⟩

/-- A piece outside of tags is a source character written as it is, or begins with `&` or
`<`. -/
theorem outside_cases {token : Token} {behind : Bool}
    (passes : Token.pass? false token = some behind) :
    (∃ character, token = .source character ∧ token.text = [character] ∧ behind = false) ∨
      token.text.head? = some '&' ∨ token.text.head? = some '<' := by
  cases token with
  | source character =>
    obtain rfl := Option.some.inj passes
    by_cases special : Entity.isSpecial character
    · simp only [Entity.isSpecial, Bool.or_eq_true, decide_eq_true_eq] at special
      rcases special with (rfl | rfl) | rfl <;> exact .inr (.inl rfl)
    · exact .inl ⟨character, rfl, text_of_plain (by simpa using special), rfl⟩
  | opening => exact .inr (.inr rfl)
  | name category => cases passes
  | closing => exact .inr (.inr rfl)

/-- Outside of tags, a character other than `<` and `&` is a character of the source. -/
theorem plain_source {tokens : List Token} (orderly : Orderly false tokens) {character : Char}
    (unescaped : character ≠ '<' ∧ character ≠ '&') {after : List Char}
    (cut : written tokens = character :: after) :
    ∃ latter, tokens = .source character :: latter ∧
      (Token.source character).text = [character] ∧ written latter = after ∧
      Orderly false latter := by
  cases tokens with
  | nil => cases cut
  | cons token others =>
    obtain ⟨behind, passes, rest⟩ := orderly_cons_iff.mp orderly
    rw [written_cons] at cut
    have first : token.text.head? = some character := by
      have heads := congrArg List.head? cut
      rwa [List.head?_append_of_ne_nil _ (text_ne_nil token)] at heads
    rcases outside_cases passes with ⟨actual, rfl, single, rfl⟩ | ampersand | less
    · rw [single] at cut
      obtain ⟨rfl, rfl⟩ := List.cons.inj cut
      exact ⟨others, rfl, single, rfl, rest⟩
    · exact absurd (Option.some.inj (first.symm.trans ampersand)) unescaped.2
    · exact absurd (Option.some.inj (first.symm.trans less)) unescaped.1

/-- Outside of tags, a stretch without `<` and `&` consists of source characters. -/
theorem plain_stretch {tokens : List Token} (orderly : Orderly false tokens)
    {stretch after : List Char} (plain : ∀ character ∈ stretch, character ≠ '<' ∧ character ≠ '&')
    (cut : written tokens = stretch ++ after) :
    ∃ latter, tokens = stretch.map Token.source ++ latter ∧
      written (stretch.map Token.source) = stretch ∧ written latter = after ∧
      state? false (stretch.map Token.source) = some false ∧ Orderly false latter := by
  induction stretch generalizing tokens with
  | nil => exact ⟨tokens, rfl, rfl, cut, rfl, orderly⟩
  | cons character others induction =>
    obtain ⟨latter, rfl, single, rest, ordered⟩ :=
      plain_source orderly (plain character List.mem_cons_self) cut
    obtain ⟨last, rfl, same, behind, reached, orderly⟩ :=
      induction ordered (fun other listed => plain other (List.mem_cons_of_mem _ listed)) rest
    refine ⟨last, rfl, ?_, behind, ?_, orderly⟩
    · rw [List.map_cons, written_cons, single, same, List.singleton_append]
    · rw [List.map_cons, state_cons]
      exact reached

/-- No guarded place has the character ahead. -/
def Foreign (character : Char) : Prop := ∀ ahead ∈ guardTexts, ahead.head? ≠ some character

/-- The first characters of all that can be ahead at guarded places. -/
def guardBegins : List Char := " \"-/;<=>abcdefgiklmnoprstuwy".toList

theorem foreign_iff {character : Char} : Foreign character ↔ character ∉ guardBegins := by
  have begins : ∀ ahead ∈ guardTexts, ∀ first ∈ ahead.head?, first ∈ guardBegins := by
    decide +kernel
  have begun : ∀ first ∈ guardBegins, ∃ ahead ∈ guardTexts, ahead.head? = some first := by
    decide +kernel
  constructor
  · intro foreign listed
    obtain ⟨ahead, guards, head⟩ := begun character listed
    exact foreign ahead guards head
  · intro absent ahead guards head
    exact absent (begins ahead guards character head)

instance (character : Char) : Decidable (Foreign character) := decidable_of_iff _ foreign_iff.symm

/-- A place that is guarded has the first character of a guard ahead. -/
theorem Guarded.head {former : List Token} {token : Token} {passed ahead : List Char}
    {latter : List Token} {gap after : List Char}
    (guarded : Guarded former token passed ahead latter gap after) :
    ahead ∈ guardTexts ∧ ∃ first others, ahead = first :: others ∧
      after = first :: (others ++ written latter) := by
  have listed := mem_guard_texts guarded.guarded
  refine ⟨listed, ?_⟩
  have filled : ∀ ahead ∈ guardTexts, ahead ≠ [] := by decide +kernel
  obtain ⟨first, others, rfl⟩ := List.exists_cons_of_ne_nil (filled ahead listed)
  exact ⟨first, others, rfl, guarded.behind⟩

/-- A character that is ahead at no guarded place is a source character wherever it comes,
and the text is outside of tags before and behind it. -/
theorem foreign_source {inside : Bool} {tokens : List Token} (orderly : Orderly inside tokens)
    {character : Char} (foreign : Foreign character) (unescaped : character ≠ '<' ∧ character ≠ '&')
    {gap after : List Char} (cut : written tokens = gap ++ character :: after) :
    ∃ former latter, tokens = former ++ .source character :: latter ∧
      (Token.source character).text = [character] ∧ written former = gap ∧
      written latter = after ∧ state? inside former = some false ∧ Orderly false latter := by
  rcases place_cases orderly cut with
    ⟨former, latter, rfl, begun, ended, reached, rest⟩ |
      ⟨former, token, latter, before, behind, passed, ahead, _, _, _, _, guarded⟩
  · obtain ⟨last, rfl, single, same, ordered⟩ := plain_source rest unescaped ended
    exact ⟨former, last, rfl, single, begun, same, reached, ordered⟩
  · obtain ⟨listed, first, others, rfl, same⟩ := guarded.head
    obtain ⟨rfl, _⟩ := List.cons.inj same
    exact absurd rfl (foreign _ listed)

end Highlighter.Markup

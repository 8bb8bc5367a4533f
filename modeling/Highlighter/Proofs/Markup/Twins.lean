import Highlighter.Proofs.Markup.Marking

/-!
# Places of the source and their twins in annotated text

Every place between two pieces of an annotated text belongs to a place of the source, the one
behind as many characters of the source. The two are compared here: what comes before and
behind the one comes before and behind the other, up to markup, and all markup that stands
directly there makes the place a seam.

What is known of the seams is a condition on the source alone: on the number of the place and on
the characters around it. A pass keeps such a condition if the matches of its pattern begin and
end at places that fulfil it.
-/

namespace Highlighter.Markup

open Text (Cursor)
open Regex (Expr Found Hits)

/-- The places of the source at which there is markup are all allowed, by their number and by the
characters before and behind them. -/
def Seamed (allowed : Nat → Option Char → Option Char → Prop) (tokens : List Token) : Prop :=
  ∀ before after, written (sources tokens) = before ++ after → before.length ∈ seams 0 tokens →
    allowed before.length before.getLast? after.head?

/-- One of the characters is missing or not of the kind. -/
def Parted (kind : Char → Bool) (last next : Option Char) : Prop :=
  last.any kind = false ∨ next.any kind = false

/-- No markup stands between two characters of the kind. -/
def Whole (kind : Char → Bool) (tokens : List Token) : Prop :=
  Seamed (fun _ => Parted kind) tokens

variable {former latter tokens : List Token} {kind : Char → Bool}

/-- In source without markup there are no seams. -/
theorem seamed_source (allowed : Nat → Option Char → Option Char → Prop) (text : List Char) :
    Seamed allowed (text.map Token.source) := by
  intro before after _ seam
  rw [seams_source] at seam
  cases seam

/-- What is allowed at seams holds between two pieces, if their place is one. -/
theorem Seamed.at_split {allowed : Nat → Option Char → Option Char → Prop}
    (seamed : Seamed allowed (former ++ latter))
    (seam : (written (sources former)).length ∈ seams 0 (former ++ latter)) :
    allowed (written (sources former)).length (written (sources former)).getLast?
      (written (sources latter)).head? := by
  refine seamed _ _ ?_ seam
  rw [sources_append, written_append]

/-! ### Before and behind a place -/

/-- Outside of tags, the last character before a place is the one of the source, or ends a tag. -/
theorem last_outside (outside : state? false former = some false) :
    (written former).getLast? = (written (sources former)).getLast? ∨
      (written former).getLast? = some '>' := by
  rcases List.eq_nil_or_concat former with rfl | ⟨earlier, token, rfl⟩
  · exact .inl rfl
  · rw [List.concat_eq_append] at outside ⊢
    have alone : written [token] = token.text := List.append_nil _
    rw [written_append, alone, List.getLast?_append_of_ne_nil _ (text_ne_nil token)]
    cases token with
    | source character =>
      refine .inl ?_
      rw [sources_append, written_append]
      change _ = (_ ++ written [.source character]).getLast?
      rw [alone, List.getLast?_append_of_ne_nil _ (text_ne_nil _)]
    | opening => exact absurd outside not_outside_opening
    | name category =>
      refine .inr ?_
      cases category <;> rfl
    | closing => exact .inr rfl

/-- Outside of tags, the next character behind a place is the one of the source, or begins a
tag. -/
theorem next_outside (orderly : Orderly false latter) :
    (written latter).head? = (written (sources latter)).head? ∨
      (written latter).head? = some '<' := by
  cases latter with
  | nil => exact .inl rfl
  | cons token others =>
    obtain ⟨_, passes, _⟩ := orderly_cons_iff.mp orderly
    rw [written_cons, List.head?_append_of_ne_nil _ (text_ne_nil token)]
    cases token with
    | source character =>
      rw [sources_cons_source, written_cons, List.head?_append_of_ne_nil _ (text_ne_nil _)]
      exact .inl rfl
    | opening => exact .inr rfl
    | name category => cases passes
    | closing => exact .inr rfl

/-- Where a character of the kind comes next and none is before the place in annotated text, none
is before it in the source. -/
theorem Whole.last (whole : Whole kind (former ++ latter))
    (next : (written (sources latter)).head?.any kind)
    (apart : (written former).getLast?.any kind = false) :
    (written (sources former)).getLast?.any kind = false := by
  rcases seam_or_same former latter with seam | ⟨same, _⟩
  · rcases whole.at_split seam with last | none
    · exact last
    · rw [next] at none
      cases none
  · rw [← same, apart]

/-- Where a character of the kind is before the place and none comes next in annotated text, none
comes next in the source. -/
theorem Whole.next (whole : Whole kind (former ++ latter))
    (last : (written (sources former)).getLast?.any kind)
    (apart : (written latter).head?.any kind = false) :
    (written (sources latter)).head?.any kind = false := by
  rcases seam_or_same former latter with seam | ⟨_, same⟩
  · rcases whole.at_split seam with none | next
    · rw [last] at none
      cases none
    · exact next
  · rw [← same, apart]

/-- If none of the kind is before the place in the source, none is in annotated text, unless it is
the end of a tag. -/
theorem last_apart (outside : state? false former = some false) (plain : kind '>' = false)
    (apart : (written (sources former)).getLast?.any kind = false) :
    (written former).getLast?.any kind = false := by
  rcases last_outside outside with same | tag
  · rw [same, apart]
  · rw [tag]
    exact plain

/-- If none of the kind comes next in the source, none does in annotated text, unless it is the
begin of a tag. -/
theorem next_apart (orderly : Orderly false latter) (plain : kind '<' = false)
    (apart : (written (sources latter)).head?.any kind = false) :
    (written latter).head?.any kind = false := by
  rcases next_outside orderly with same | tag
  · rw [same, apart]
  · rw [tag]
    exact plain

/-! ### From the source to annotated text -/

/-- Where a character comes in the source, it comes in the annotated text. -/
theorem split_of_sources {before after : List Token} {character : Char}
    (same : sources tokens = before ++ .source character :: after) :
    ∃ former latter, tokens = former ++ .source character :: latter ∧ sources former = before ∧
      sources latter = after := by
  induction tokens generalizing before with
  | nil => cases before <;> cases same
  | cons token others induction =>
    rcases token.markup_or_source with markup | ⟨first, rfl⟩
    · rw [sources_cons_markup markup] at same
      obtain ⟨former, latter, rfl, rfl, rfl⟩ := induction same
      exact ⟨token :: former, latter, rfl, sources_cons_markup markup _, rfl⟩
    · rw [sources_cons_source] at same
      cases before with
      | nil =>
        obtain ⟨head, rfl⟩ := List.cons.inj same
        obtain rfl := Token.source.inj head
        exact ⟨[], others, rfl, rfl, rfl⟩
      | cons head before =>
        obtain ⟨rfl, rest⟩ := List.cons.inj same
        obtain ⟨former, latter, rfl, rfl, rfl⟩ := induction rest
        exact ⟨.source first :: former, latter, rfl, sources_cons_source _ _, rfl⟩

/-- A stretch of the source without seams before its last character stands in one piece in the
annotated text. -/
theorem stretch_of_sources (offset : Nat) {stretch : List Char} {after : List Token}
    (same : sources tokens = stretch.map Token.source ++ after)
    (unbroken : ∀ seam ∈ seams offset tokens,
      offset + (written (stretch.map Token.source)).length ≤ seam) :
    ∃ latter, tokens = stretch.map Token.source ++ latter ∧ sources latter = after := by
  induction stretch generalizing offset tokens with
  | nil => exact ⟨tokens, rfl, same⟩
  | cons character others induction =>
    cases tokens with
    | nil => cases same
    | cons token further =>
      rcases token.markup_or_source with markup | ⟨first, rfl⟩
      · have short := unbroken offset (by rw [seams_cons_markup _ markup]; exact List.mem_cons_self)
        have filled := List.length_pos_iff.mpr (text_ne_nil (.source character))
        rw [List.map_cons, written_cons, List.length_append] at short
        omega
      · rw [sources_cons_source, List.map_cons, List.cons_append] at same
        obtain ⟨head, rest⟩ := List.cons.inj same
        obtain rfl := Token.source.inj head
        obtain ⟨latter, rfl, sourced⟩ :=
          induction (offset + (Token.source first).text.length) rest (by
            intro seam listed
            have bound := unbroken seam listed
            rw [List.map_cons, written_cons, List.length_append] at bound
            omega)
        exact ⟨latter, rfl, sourced⟩

/-- Where a stretch without seams inside comes in the source, it comes in one piece in the
annotated text, and outside of tags. -/
theorem split_of_stretch (orderly : Orderly false tokens) {before after : List Token}
    {first : Char} {others : List Char}
    (same : sources tokens = before ++ ((first :: others).map Token.source ++ after))
    (unbroken : ∀ seam ∈ seams 0 tokens, seam ≤ (written before).length ∨
      (written before).length + (written ((first :: others).map Token.source)).length ≤ seam) :
    ∃ former latter, tokens = former ++ ((first :: others).map Token.source ++ latter) ∧
      sources former = before ∧ sources latter = after ∧ state? false former = some false ∧
      Orderly false ((first :: others).map Token.source ++ latter) := by
  obtain ⟨former, rest, rfl, rfl, sourced⟩ := split_of_sources same
  have within : ∀ seam ∈ seams (written (sources former)).length (.source first :: rest),
      (written (sources former)).length + (written ((first :: others).map Token.source)).length ≤
        seam := by
    intro seam listed
    have among : seam ∈ seams 0 (former ++ .source first :: rest) := by
      rw [seams_append, Nat.zero_add]
      exact List.mem_append_right _ listed
    rw [seams_cons_source] at listed
    have behind := (seams_bounded listed).1
    have filled := List.length_pos_iff.mpr (text_ne_nil (.source first))
    have bounds := unbroken seam among
    omega
  obtain ⟨latter, whole, behind⟩ := stretch_of_sources (written (sources former)).length
    (show sources (.source first :: rest) = (first :: others).map Token.source ++ after from
      congrArg _ sourced) within
  rw [whole] at orderly ⊢
  obtain ⟨middle, reached, ordered⟩ := orderly_append_iff.mp orderly
  obtain rfl : middle = false := by
    cases middle with
    | false => rfl
    | true => cases ordered
  exact ⟨former, latter, rfl, rfl, behind, reached, ordered⟩

end Highlighter.Markup

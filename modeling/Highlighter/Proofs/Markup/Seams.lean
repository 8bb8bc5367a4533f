import Highlighter.Proofs.Markup.Tokens

/-!
# Where markup stands in a text

Of annotated text, some characters come from the source and the others are markup. A place of
the source is a seam if markup stands there. What marking does to a text is told by its seams:
at any other place, the characters before and behind it are neighbors in the annotated text,
too.

Places of the source are numbered by the characters before them, as cursors are.
-/

namespace Highlighter.Markup

/-- The pieces that are characters of the source. -/
def sources (tokens : List Token) : List Token :=
  tokens.filter fun
    | .source _ => true
    | _ => false

/-- The piece is a character of the source. -/
def Token.isSource : Token → Bool
  | source _ => true
  | _ => false

/-- The characters of the pieces, each with whether it comes from the source. -/
def flagged (tokens : List Token) : List (Char × Bool) :=
  tokens.flatMap fun token => token.text.map fun character => (character, token.isSource)

/-- How many of the first characters come from the source. -/
def sourceCount (tokens : List Token) (index : Nat) : Nat :=
  ((flagged tokens).take index).countP Prod.snd

/-- The places of the source at which there is markup, counted from the offset on. -/
def seams (offset : Nat) : List Token → List Nat
  | [] => []
  | token :: others =>
    if token.isSource then seams (offset + token.text.length) others
    else offset :: seams offset others

/-- A piece is markup or a character of the source. -/
theorem Token.markup_or_source (token : Token) :
    token.isSource = false ∨ ∃ character, token = source character := by
  cases token with
  | source character => exact .inr ⟨character, rfl⟩
  | opening => exact .inl rfl
  | name category => exact .inl rfl
  | closing => exact .inl rfl

theorem sources_append (former latter : List Token) :
    sources (former ++ latter) = sources former ++ sources latter := List.filter_append ..

@[simp]
theorem sources_cons_source (character : Char) (others : List Token) :
    sources (.source character :: others) = .source character :: sources others := rfl

/-- Markup is not part of the source. -/
theorem sources_cons_markup {token : Token} (markup : token.isSource = false)
    (others : List Token) : sources (token :: others) = sources others := by
  cases token with
  | source character => cases markup
  | opening => rfl
  | name category => rfl
  | closing => rfl

/-- Source characters are the source. -/
theorem sources_source (text : List Char) :
    sources (text.map Token.source) = text.map Token.source := by
  induction text with
  | nil => rfl
  | cons character others induction => exact congrArg _ induction

theorem flagged_append (former latter : List Token) :
    flagged (former ++ latter) = flagged former ++ flagged latter := List.flatMap_append

theorem flagged_cons (token : Token) (others : List Token) :
    flagged (token :: others) =
      token.text.map (fun character => (character, token.isSource)) ++ flagged others :=
  List.flatMap_cons

/-- Without their flags the characters are the text. -/
theorem map_flagged (tokens : List Token) : (flagged tokens).map Prod.fst = written tokens := by
  induction tokens with
  | nil => rfl
  | cons token others induction =>
    rw [flagged_cons, written_cons, List.map_append, induction, List.map_map]
    exact congrArg (· ++ written others) (List.map_id _)

theorem length_flagged (tokens : List Token) :
    (flagged tokens).length = (written tokens).length := by
  rw [← map_flagged, List.length_map]

/-- The characters that come from the source are those of the source. -/
theorem count_flagged (tokens : List Token) :
    (flagged tokens).countP Prod.snd = (written (sources tokens)).length := by
  induction tokens with
  | nil => rfl
  | cons token others induction =>
    rw [flagged_cons, List.countP_append, induction, List.countP_map]
    rcases token.markup_or_source with markup | ⟨character, rfl⟩
    · rw [sources_cons_markup markup]
      simp [Function.comp_def, markup]
    · rw [sources_cons_source, written_cons, List.length_append]
      simp [Function.comp_def, Token.isSource]

/-- Between two pieces, the characters of the source are counted by those of the pieces before. -/
theorem count_of_split (former latter : List Token) :
    sourceCount (former ++ latter) (written former).length = (written (sources former)).length := by
  rw [sourceCount, flagged_append, ← length_flagged, List.take_left, count_flagged]

/-- More characters hold no fewer characters of the source. -/
theorem count_monotone (tokens : List Token) : Monotone (sourceCount tokens) := by
  intro index other ordered
  exact (List.take_sublist_take_left ordered).countP_le

theorem seams_cons_source (offset : Nat) (character : Char) (others : List Token) :
    seams offset (.source character :: others) =
      seams (offset + (Token.source character).text.length) others := rfl

theorem seams_cons_markup (offset : Nat) {token : Token} (markup : token.isSource = false)
    (others : List Token) : seams offset (token :: others) = offset :: seams offset others := by
  rw [seams, markup, if_neg Bool.false_ne_true]

theorem seams_append (offset : Nat) (former latter : List Token) :
    seams offset (former ++ latter) =
      seams offset former ++ seams (offset + (written (sources former)).length) latter := by
  induction former generalizing offset with
  | nil => rfl
  | cons token others induction =>
    rw [List.cons_append]
    rcases token.markup_or_source with markup | ⟨character, rfl⟩
    · rw [seams_cons_markup _ markup, seams_cons_markup _ markup, sources_cons_markup markup,
        induction, List.cons_append]
    · rw [seams_cons_source, seams_cons_source, sources_cons_source, written_cons,
        List.length_append, induction, Nat.add_assoc]

/-- Seams are places of the source. -/
theorem seams_bounded {offset place : Nat} {tokens : List Token} (seam : place ∈ seams offset tokens) :
    offset ≤ place ∧ place ≤ offset + (written (sources tokens)).length := by
  induction tokens generalizing offset with
  | nil => cases seam
  | cons token others induction =>
    rcases token.markup_or_source with markup | ⟨character, rfl⟩
    · rw [seams_cons_markup _ markup] at seam
      rw [sources_cons_markup markup]
      rcases List.mem_cons.mp seam with rfl | further
      · omega
      · exact induction further
    · rw [seams_cons_source] at seam
      have bounds := induction seam
      rw [sources_cons_source, written_cons, List.length_append]
      omega

/-- Among characters of the source there is no seam. -/
theorem seams_source (offset : Nat) (text : List Char) :
    seams offset (text.map Token.source) = [] := by
  induction text generalizing offset with
  | nil => rfl
  | cons character others induction => exact induction _

/-- Inside of a stretch of source characters there is no seam. -/
theorem not_seam_within {former latter : List Token} {stretch : List Char} {place : Nat}
    (seam : place ∈ seams 0 (former ++ (stretch.map Token.source ++ latter))) :
    place ≤ (written (sources former)).length ∨
      (written (sources former)).length + (written (stretch.map Token.source)).length ≤ place := by
  rw [seams_append, seams_append, seams_source, List.nil_append, sources_source] at seam
  rcases List.mem_append.mp seam with before | behind
  · have bounds := seams_bounded before
    omega
  · have bounds := seams_bounded behind
    omega

/-- A place is a seam, or what is behind it in the source is so in the annotated text. -/
theorem seam_or_next (offset : Nat) (tokens : List Token) :
    offset ∈ seams offset tokens ∨ (written tokens).head? = (written (sources tokens)).head? := by
  cases tokens with
  | nil => exact .inr rfl
  | cons token others =>
    rcases token.markup_or_source with markup | ⟨character, rfl⟩
    · rw [seams_cons_markup _ markup]
      exact .inl List.mem_cons_self
    · rw [sources_cons_source, written_cons, written_cons,
        List.head?_append_of_ne_nil _ (text_ne_nil _),
        List.head?_append_of_ne_nil _ (text_ne_nil _)]
      exact .inr rfl

/-- A place is a seam, or what is before it in the source is so in the annotated text. -/
theorem seam_or_last (tokens : List Token) :
    (written (sources tokens)).length ∈ seams 0 tokens ∨
      (written tokens).getLast? = (written (sources tokens)).getLast? := by
  rcases List.eq_nil_or_concat tokens with rfl | ⟨earlier, token, rfl⟩
  · exact .inr rfl
  · rw [List.concat_eq_append, sources_append]
    rcases token.markup_or_source with markup | ⟨character, rfl⟩
    · rw [sources_cons_markup markup, seams_append, Nat.zero_add, seams_cons_markup _ markup]
      exact .inl (by simp [sources])
    · have alone : written [.source character] = (Token.source character).text := List.append_nil _
      rw [sources_cons_source, written_append, written_append]
      change _ ∨ (_ ++ written [.source character]).getLast? =
        (_ ++ written [.source character]).getLast?
      rw [alone, List.getLast?_append_of_ne_nil _ (text_ne_nil _),
        List.getLast?_append_of_ne_nil _ (text_ne_nil _)]
      exact .inr rfl

/-- A place of the source is a seam, or has the neighbors that it has in the annotated text. -/
theorem seam_or_same (former latter : List Token) :
    (written (sources former)).length ∈ seams 0 (former ++ latter) ∨
      (written former).getLast? = (written (sources former)).getLast? ∧
        (written latter).head? = (written (sources latter)).head? := by
  rw [seams_append, Nat.zero_add]
  rcases seam_or_last former with seam | last
  · exact .inl (List.mem_append_left _ seam)
  · rcases seam_or_next (written (sources former)).length latter with seam | next
    · exact .inl (List.mem_append_right _ seam)
    · exact .inr ⟨last, next⟩

end Highlighter.Markup

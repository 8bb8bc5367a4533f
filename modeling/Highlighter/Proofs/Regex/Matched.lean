import Highlighter.Proofs.Regex.Meaning

/-!
# What a match consumes

The ways of an expression are places, but what is said of a pattern is mostly said of the
characters between two places. A match from a place to another has passed over a stretch
when the stretch and what is ahead behind it make up what was ahead before. Stretches add
up along a sequence, so a pattern is taken apart place by place.
-/

namespace Highlighter.Regex

open Text (Cursor)

variable {text : List Char}

namespace CharClass

/-- A set passes over one of its characters. -/
theorem after_of_mem_ends {set : CharClass} {place last : Cursor text}
    (member : last ∈ set.ends place) :
    ∃ character, place.after = character :: last.after ∧ set.contains character := by
  obtain ⟨character, stepped, contained⟩ := mem_ends.mp member
  exact ⟨character, ((Cursor.next_some_iff place last character).mp stepped).1, contained⟩

/-- A set whose character is ahead passes over it. -/
theorem mem_ends_of_after {set : CharClass} {place : Cursor text} {character : Char}
    {rest : List Char} (ahead : place.after = character :: rest)
    (contained : set.contains character) :
    ∃ last, last ∈ set.ends place ∧ last.after = rest := by
  obtain ⟨last, stepped, same, _⟩ := Cursor.next_of_after ahead
  exact ⟨last, mem_ends.mpr ⟨character, stepped, contained⟩, same⟩

/-- A range of one character has this character only. -/
@[simp]
theorem contains_single {only character : Char} :
    (range only only).contains character = true ↔ character = only := by
  simp only [contains, Bool.and_eq_true, decide_eq_true_eq]
  constructor
  · rintro ⟨above, below⟩
    exact Char.le_antisymm below above
  · rintro rfl
    exact ⟨Char.le_refl _, Char.le_refl _⟩

end CharClass

namespace Expr

/-- All characters that the expression consumes have the property. What is only looked at
does not count. -/
def Within (property : Char → Prop) : Expr → Prop
  | empty | assertion _ | look _ _ _ | reference _ => True
  | one set => ∀ character, (set.getD .nothing).contains character → property character
  | sequence first second | either first second => first.Within property ∧ second.Within property
  | repetition body _ _ _ | capture _ body | group body | atomic body => body.Within property

/-- A match passes over characters that the expression consumes. -/
theorem stretch_within (property : Char → Prop) {expression : Expr} {place last : Cursor text}
    (member : last ∈ expression.ends place) (tame : expression.tame)
    (within : expression.Within property) :
    ∃ stretch, place.after = stretch ++ last.after ∧ ∀ character ∈ stretch, property character := by
  induction expression generalizing place last with
  | empty =>
    obtain rfl : last = place := by simpa [ends] using member
    exact ⟨[], rfl, by simp⟩
  | one set =>
    obtain ⟨character, ahead, contained⟩ := CharClass.after_of_mem_ends member
    exact ⟨[character], ahead, by simpa using within character contained⟩
  | assertion condition =>
    obtain ⟨_, rfl⟩ : condition.holds place ∧ last = place := by simpa [ends] using member
    exact ⟨[], rfl, by simp⟩
  | sequence first second former latter =>
    obtain ⟨tameFirst, tameSecond⟩ := Bool.and_eq_true_iff.mp tame
    obtain ⟨middle, inFirst, inSecond⟩ := List.mem_flatMap.mp member
    obtain ⟨begun, ahead, propertyFirst⟩ := former inFirst tameFirst within.1
    obtain ⟨ended, behind, propertySecond⟩ := latter inSecond tameSecond within.2
    refine ⟨begun ++ ended, by rw [ahead, behind, List.append_assoc], fun character listed => ?_⟩
    rcases List.mem_append.mp listed with first | second
    · exact propertyFirst character first
    · exact propertySecond character second
  | either first second former latter =>
    obtain ⟨tameFirst, tameSecond⟩ := Bool.and_eq_true_iff.mp tame
    rcases List.mem_append.mp member with inFirst | inSecond
    · exact former inFirst tameFirst within.1
    · exact latter inSecond tameSecond within.2
  | repetition body least most greedy induction =>
    simp only [Expr.tame, Bool.and_eq_true] at tame
    refine repeated_invariant (fun cursor : Cursor text => ∃ stretch,
      place.after = stretch ++ cursor.after ∧ ∀ character ∈ stretch, property character)
      (fun before behind passed round => ?_) ⟨[], rfl, by simp⟩ member
    obtain ⟨stretch, ahead, properties⟩ := passed
    obtain ⟨more, onward, others⟩ := induction round tame.1.1 within
    refine ⟨stretch ++ more, by rw [ahead, onward, List.append_assoc], fun character listed => ?_⟩
    rcases List.mem_append.mp listed with first | second
    · exact properties character first
    · exact others character second
  | capture group body induction => exact induction member tame within
  | group body induction => exact induction member tame within
  | look direction negated body induction =>
    cases direction with
    | ahead =>
      obtain ⟨_, rfl⟩ : (body.ends place).isEmpty = negated ∧ last = place := by
        simpa [ends] using member
      exact ⟨[], rfl, by simp⟩
    | behind => cases tame
  | atomic body induction => cases tame
  | reference group => cases tame

/-- A match of a sequence is a match of its first part and then one of the others. -/
theorem mem_sequences_cons {part : Expr} {others : List Expr} {place last : Cursor text} :
    last ∈ (sequences (part :: others)).ends place ↔
      ∃ middle, middle ∈ part.ends place ∧ last ∈ (sequences others).ends middle := by
  cases others with
  | nil => simp [sequences, ends]
  | cons next further => exact List.mem_flatMap

/-- The preferred match of a sequence is a match of its first part and then the preferred one of
the others. -/
theorem exists_of_head_sequences {part : Expr} {others : List Expr} {place last : Cursor text}
    (preferred : ((sequences (part :: others)).ends place).head? = some last) :
    ∃ middle, middle ∈ part.ends place ∧ ((sequences others).ends middle).head? = some last := by
  cases others with
  | nil => exact ⟨last, List.mem_of_mem_head? preferred, rfl⟩
  | cons next further =>
    change ((part.ends place).flatMap (sequences (next :: further)).ends).head? = some last
      at preferred
    rw [List.head?_flatMap] at preferred
    exact List.exists_of_findSome?_eq_some preferred

/-- A match of a sequence is a match of its begin and then one of the rest. -/
theorem mem_sequences_append {former latter : List Expr} {place last : Cursor text} :
    last ∈ (sequences (former ++ latter)).ends place ↔
      ∃ middle, middle ∈ (sequences former).ends place ∧ last ∈ (sequences latter).ends middle := by
  induction former generalizing place with
  | nil => simp [sequences, ends]
  | cons part others induction =>
    simp only [List.cons_append, mem_sequences_cons, induction]
    constructor
    · rintro ⟨next, first, middle, onward, rest⟩
      exact ⟨middle, ⟨next, first, onward⟩, rest⟩
    · rintro ⟨middle, ⟨next, first, onward⟩, rest⟩
      exact ⟨next, first, middle, onward, rest⟩

/-- A match of alternatives is a match of one of them. -/
theorem exists_of_mem_alternatives {options : List Expr} (filled : options ≠ [])
    {place last : Cursor text} (member : last ∈ (alternatives options).ends place) :
    ∃ option, option ∈ options ∧ last ∈ option.ends place := by
  induction options with
  | nil => exact absurd rfl filled
  | cons option others induction =>
    cases others with
    | nil => exact ⟨option, List.mem_cons_self, member⟩
    | cons next further =>
      rcases List.mem_append.mp member with first | other
      · exact ⟨option, List.mem_cons_self, first⟩
      · obtain ⟨chosen, listed, matched⟩ := induction (List.cons_ne_nil _ _) other
        exact ⟨chosen, List.mem_cons_of_mem _ listed, matched⟩

/-- The preferred match of alternatives is the preferred match of one of them. -/
theorem exists_of_head_alternatives {options : List Expr} (filled : options ≠ [])
    {place last : Cursor text} (preferred : ((alternatives options).ends place).head? = some last) :
    ∃ option, option ∈ options ∧ (option.ends place).head? = some last := by
  induction options with
  | nil => exact absurd rfl filled
  | cons option others induction =>
    cases others with
    | nil => exact ⟨option, List.mem_cons_self, preferred⟩
    | cons next further =>
      change (option.ends place ++ (alternatives (next :: further)).ends place).head? = some last
        at preferred
      rw [List.head?_append, Option.or_eq_some_iff] at preferred
      rcases preferred with first | ⟨_, other⟩
      · exact ⟨option, List.mem_cons_self, first⟩
      · obtain ⟨chosen, listed, matched⟩ := induction (List.cons_ne_nil _ _) other
        exact ⟨chosen, List.mem_cons_of_mem _ listed, matched⟩

/-- A literal passes over its character. -/
theorem after_of_mem_literal {character : Char} {place last : Cursor text}
    (member : last ∈ (literal character false).ends place) :
    place.after = character :: last.after := by
  obtain ⟨actual, ahead, contained⟩ := CharClass.after_of_mem_ends member
  rw [ahead, CharClass.contains_single.mp contained]

/-- Where a literal does not match, its character is not ahead. -/
theorem literal_not_ahead {character : Char} {place : Cursor text}
    (missing : (literal character false).ends place = []) :
    place.after.head? ≠ some character := by
  intro marked
  obtain ⟨rest, ahead⟩ := List.head?_eq_some_iff.mp marked
  obtain ⟨further, found, _⟩ :=
    CharClass.mem_ends_of_after ahead (CharClass.contains_single.mpr rfl)
  exact List.not_mem_nil (missing ▸ found : further ∈ [])

/-- Literals one after another pass over their characters. -/
theorem after_of_mem_literals {word : List Char} {others : List Expr} {place last : Cursor text}
    (member : last ∈ (sequences ((word.map fun letter => literal letter false) ++ others)).ends
      place) :
    ∃ middle : Cursor text, place.after = word ++ middle.after ∧
      last ∈ (sequences others).ends middle := by
  induction word generalizing place with
  | nil => exact ⟨place, rfl, member⟩
  | cons letter further induction =>
    obtain ⟨next, first, onward⟩ := mem_sequences_cons.mp member
    obtain ⟨middle, ahead, rest⟩ := induction onward
    exact ⟨middle, by rw [after_of_mem_literal first, ahead, List.cons_append], rest⟩

/-- A word passes over its letters. -/
theorem after_of_mem_word {word : List Char} {place last : Cursor text}
    (member : last ∈ (sequences (word.map fun letter => literal letter false)).ends place) :
    place.after = word ++ last.after := by
  have extended : last ∈
      (sequences ((word.map fun letter => literal letter false) ++ [])).ends place := by
    rwa [List.append_nil]
  obtain ⟨middle, ahead, rest⟩ := after_of_mem_literals extended
  obtain rfl : last = middle := by simpa [sequences, ends] using rest
  exact ahead

/-- A part that may be missing matches once or not at all. -/
theorem mem_optional {body : Expr} {greedy : Bool} {place last : Cursor text}
    (member : last ∈ (repetition body 0 (some 1) greedy).ends place) :
    last = place ∨ last ∈ body.ends place := by
  obtain ⟨middle, none, once⟩ := List.mem_flatMap.mp member
  obtain rfl : middle = place := by simpa [times] using none
  rcases mem_prefer.mp once with taken | left
  · obtain ⟨further, first, done⟩ := List.mem_flatMap.mp taken
    obtain rfl : last = further := by simpa [upTo] using done
    exact .inr first
  · exact .inl (by simpa using left)

/-- The preferred match of as many characters of a set as there are ends where none is ahead. -/
theorem head_many_stops {set : CharClass} {place last : Cursor text}
    (preferred : ((repetition (one (some set)) 0 none true).ends place).head? = some last)
    {next : Char} {rest : List Char} (ahead : last.after = next :: rest) :
    set.contains next = false := by
  have alone : (repetition (one (some set)) 0 none true).ends place =
      star (fun cursor => cursor) true set.ends place := List.flatMap_singleton ..
  rw [alone] at preferred
  have stopped := star_head_stops (fun place reached member => by
    obtain ⟨character, stepped, _⟩ := CharClass.mem_ends.mp member
    have moved := Cursor.index_of_next? stepped
    omega) preferred
  cases contained : set.contains next with
  | false => rfl
  | true =>
    obtain ⟨further, member, _⟩ := CharClass.mem_ends_of_after ahead contained
    rw [stopped] at member
    cases member

/-- A look ahead stays where it is and finds a match there. -/
theorem mem_look_ahead {body : Expr} {place last : Cursor text}
    (member : last ∈ (look .ahead false body).ends place) :
    last = place ∧ ∃ reached, reached ∈ body.ends place := by
  obtain ⟨found, rfl⟩ : (body.ends place).isEmpty = false ∧ last = place := by
    simpa [ends] using member
  exact ⟨rfl, List.isEmpty_eq_false_iff_exists_mem.mp found⟩

/-- A negated look ahead stays where it is and finds no match there. -/
theorem mem_look_ahead_negated {body : Expr} {place last : Cursor text}
    (member : last ∈ (look .ahead true body).ends place) :
    last = place ∧ body.ends place = [] := by
  obtain ⟨found, rfl⟩ : (body.ends place).isEmpty = true ∧ last = place := by
    simpa [ends] using member
  exact ⟨rfl, List.isEmpty_iff.mp found⟩

/-- A condition stays where it is and holds there. -/
theorem mem_assertion {condition : Assertion} {place last : Cursor text}
    (member : last ∈ (assertion condition).ends place) :
    last = place ∧ condition.holds place := by
  obtain ⟨holds, rfl⟩ : condition.holds place ∧ last = place := by simpa [ends] using member
  exact ⟨rfl, holds⟩

/-- A match that consumes passes over at least one character. -/
theorem filled_stretch (property : Char → Prop) {expression : Expr} {place last : Cursor text}
    (member : last ∈ expression.ends place) (tame : expression.tame)
    (within : expression.Within property) (consumes : 0 < expression.minimalLength) :
    ∃ first others, place.after = first :: (others ++ last.after) ∧
      ∀ character ∈ first :: others, property character := by
  obtain ⟨stretch, ahead, properties⟩ := stretch_within property member tame within
  have moved := minimal_length_le tame member
  cases stretch with
  | nil =>
    have lengths := congrArg List.length ahead
    have bounded := last.index_le_length
    simp only [List.nil_append, Cursor.length_after] at lengths
    omega
  | cons first others => exact ⟨first, others, ahead, properties⟩

end Expr

end Highlighter.Regex

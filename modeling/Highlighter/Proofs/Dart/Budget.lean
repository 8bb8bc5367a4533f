import Highlighter.Proofs.Dart.Patterns
import Highlighter.Proofs.Grammar.KeywordSearch
import Highlighter.Proofs.Unicode.Property

/-!
# What searches with the patterns of Dart cost

Three patterns of Dart are matched by automata, which never go back. The keywords, the
literals and the functions look ahead, so their programs do. How often one search goes back
is bounded by the length of the text:

* a keyword is given up after its letters, so a try costs no more than the list is long;
* a name in front of no parenthesis is not tried again inside of the word, so its letters and
  blanks are gone over once;
* a quote without an end makes the search go over all quotes up to one that is not behind a
  backslash. All of these are followed by `>`, so no text in quotes begins with one of them.
-/

namespace Highlighter.Dart

open Text (Cursor)
open Regex (Expr CharClass Code Spot)
open Regex.Machine (beginning)
open Regex.Compile (matcher)

variable {text : List Char}

/-- As many characters of a set as there are. -/
def manyCode (set : CharClass) : Code := .repetition (.one set) 0 none true

/-- The end of a name, the blanks behind it and a look at the parenthesis. -/
def callCode : Code :=
  .sequence (.condition .wordBoundary)
    (.sequence (manyCode (.single ' ')) (.look 0 false (.one (.single '('))))

/-- The program of the functions. -/
def functionsCode : Code :=
  .sequence (.condition .wordBoundary)
    (.sequence (.one nameBegin) (.sequence (manyCode (.having .word)) callCode))

/-- The program of a quote behind a backslash, or of another character. -/
def roundCode (quote : Char) : Code :=
  .either (.sequence (.one (.single '\\')) (.one (.single quote)))
    (.one (.complement (union [.single quote])))

/-- The program of a quote that `>` does not follow. -/
def quoteCode (quote : Char) : Code :=
  .sequence (.one (.single quote)) (.look 0 true (.one (.single '>')))

/-- The program of a text between two quotes of a kind. -/
def quotedCode (quote : Char) : Code :=
  .sequence (.one (.single quote)) (.sequence (.look 0 true (.one (.single '>')))
    (.sequence (.repetition (roundCode quote) 0 none true) (quoteCode quote)))

/-- The program of the literals. -/
def literalsCode : Code := .either (quotedCode '\'') (quotedCode '"')

theorem keywords_matcher : matcher (keywordsExpr words) = .ok (.machine (keywordsCode words)) :=
  Highlighter.keywords_matcher (by decide +kernel) (by decide +kernel) keywords_plain.1

theorem functions_matcher : matcher functions = .ok (.machine functionsCode) := by
  cbv

theorem literals_matcher : matcher literals = .ok (.machine literalsCode) := by
  cbv

theorem numbers_matcher : matcher numbers = .ok (.automaton (.ofExpr numbers)) := by
  cbv

theorem classes_matcher : matcher classes = .ok (.automaton (.ofExpr classes)) := by
  cbv

theorem comments_matcher : matcher comments = .ok (.automaton (.ofExpr comments)) := by
  cbv

/-! ### Functions -/

/-- The characters that a search for functions need not try a second time: what is left of the
word that the place is inside of, and the blanks behind it. -/
def calledAhead : Bool → List Char → Nat
  | _, [] => 0
  | inside, character :: others =>
    if Unicode.isWord character then if inside then calledAhead true others + 1 else 0
    else if character = ' ' then calledAhead false others + 1 else 0

/-- Blanks are gone over once, with one more step at their end. -/
theorem blanks_cost (spot : Spot text) :
    (manyCode (.single ' ')).cost spot = calledAhead false spot.here.after + 1 := by
  rw [manyCode, (Code.cost_star _ _ _).1]
  generalize left : spot.here.after = after
  induction after generalizing spot with
  | nil =>
    have ended := (Cursor.next_none_iff spot.here).mpr left
    exact (Code.star_one_stops (Code.ends_one_at_end _ _ ended)).1
  | cons character others induction =>
    obtain ⟨further, stepped, rest, _⟩ := Cursor.next_of_after left
    by_cases blank : character = ' '
    · subst blank
      rw [(Code.star_one_of_next stepped (by decide)).1, induction _ rest]
      rfl
    · have none : (Code.one (.single ' ')).ends spot = [] := by
        rw [Code.ends_one_of_next _ _ stepped, if_neg]
        exact fun same => blank (CharClass.contains_single.mp same)
      rw [(Code.star_one_stops none).1, calledAhead]
      simp [blank]

/-- Where a word ends, the blanks behind it are gone over. -/
theorem call_cost (spot : Spot text) :
    callCode.cost spot = if Regex.Assertion.holds .wordBoundary spot.here then
      calledAhead false spot.here.after + 1 else 0 := by
  rw [callCode, Code.cost_condition, Code.cost_sequence_free (fun _ => rfl), blanks_cost]

/-- A name costs its letters and the blanks behind it, with two more steps at their ends: the
word does not end before its last letter. -/
theorem name_cost {spot : Spot text} (inside : Regex.Assertion.startsWithWord spot.here.before) :
    (Code.sequence (manyCode (.having .word)) callCode).cost spot =
      calledAhead true spot.here.after + 2 := by
  have boundary : Regex.Assertion.holds .wordBoundary spot.here =
      !Regex.Assertion.startsWithWord spot.here.after := by
    rw [Regex.Assertion.holds, inside, Bool.true_bne]
  rw [Code.cost, manyCode, (Code.cost_star _ _ _).1, (Code.cost_star _ _ _).2]
  generalize left : spot.here.after = after at boundary
  induction after generalizing spot with
  | nil =>
    have ended := (Cursor.next_none_iff spot.here).mpr left
    obtain ⟨cost, ways⟩ := Code.star_one_stops (Code.ends_one_at_end (.having .word) spot ended)
    rw [cost, ways, List.map_singleton, List.sum_singleton, call_cost, left, boundary]
    rfl
  | cons character others induction =>
    obtain ⟨further, stepped, rest, passed⟩ := Cursor.next_of_after left
    have next : Regex.Assertion.startsWithWord (character :: others) = Unicode.isWord character := rfl
    by_cases word : Unicode.isWord character
    · have contained : (CharClass.having .word).contains character := word
      obtain ⟨cost, ways⟩ := Code.star_one_of_next stepped contained
      have within : callCode.cost spot = 0 := by
        rw [call_cost, boundary, next, word]
        rfl
      have reached : Regex.Assertion.startsWithWord further.before := by
        rw [passed]
        exact word
      have onward := @induction ⟨spot.marks, further⟩ reached rest
        (by rw [Regex.Assertion.holds, reached, rest, Bool.true_bne])
      rw [cost, ways, List.map_append, List.sum_append, List.map_singleton, List.sum_singleton,
        within, calledAhead, if_pos word]
      simp only [↓reduceIte]
      omega
    · have none : (Code.one (.having .word)).ends spot = [] := by
        rw [Code.ends_one_of_next _ _ stepped, if_neg]
        exact word
      obtain ⟨cost, ways⟩ := Code.star_one_stops none
      rw [cost, ways, List.map_singleton, List.sum_singleton, call_cost, left, boundary, next]
      simp [word, calledAhead]
      omega

/-- Going on by one character leaves at most one less of what is ahead. -/
theorem called_ahead_le (inside : Bool) (character : Char) (others : List Char) :
    calledAhead inside (character :: others) ≤
      calledAhead (Unicode.isWord character) others + 1 := by
  rw [calledAhead]
  split
  · split <;> simp_all
  · split <;> simp_all

theorem called_ahead_le_length (inside : Bool) (after : List Char) :
    calledAhead inside after ≤ after.length := by
  induction after generalizing inside with
  | nil => exact Nat.le_refl _
  | cons character others induction =>
    have onward := called_ahead_le inside character others
    have shorter := induction (Unicode.isWord character)
    rw [List.length_cons]
    omega

/-- The characters that a search for functions need not try again from a place on. -/
def calledFrom (place : Cursor text) : Nat :=
  calledAhead (Regex.Assertion.startsWithWord place.before) place.after

/-- A try of the functions costs nothing, or what the next place then need not try again. -/
theorem functions_cost (place : Cursor text) : functionsCode.cost (beginning place) = 0 ∨
    ∃ character further, place.next? = some (character, further) ∧ calledFrom place = 0 ∧
      functionsCode.cost (beginning place) = calledFrom further + 2 := by
  rw [functionsCode, Code.cost_condition]
  by_cases boundary : Regex.Assertion.holds .wordBoundary (beginning place).here
  · rw [if_pos boundary]
    change Regex.Assertion.holds .wordBoundary place at boundary
    cases stepped : place.next? with
    | none => exact .inl (by simp [Code.cost, Code.ends_one_at_end _ (beginning place) stepped])
    | some step =>
      obtain ⟨character, further⟩ := step
      rw [Code.cost_one_of_next _ _ (beginning place) stepped]
      by_cases begins : nameBegin.contains character
      · obtain ⟨ahead, passed⟩ := (Cursor.next_some_iff place further character).mp stepped
        have word := isWord_of_name_begin begins
        have outside : Regex.Assertion.startsWithWord place.before = false := by
          rw [Regex.Assertion.holds, ahead] at boundary
          simpa [Regex.Assertion.startsWithWord, word] using boundary
        have inside : Regex.Assertion.startsWithWord further.before := by
          rw [passed]
          exact word
        refine .inr ⟨character, further, rfl, ?_, ?_⟩
        · rw [calledFrom, outside, ahead, calledAhead, if_pos word]
          rfl
        · rw [if_pos begins, name_cost inside, calledFrom, inside]
      · exact .inl (if_neg begins)
  · exact .inl (if_neg boundary)

/-- A search for functions costs three steps for each character at most. -/
theorem functions_search_le (place : Cursor text) :
    Regex.Machine.searchCost functionsCode place ≤ 3 * (place.after.length + 1) := by
  have bounded (place : Cursor text) := called_ahead_le_length
    (Regex.Assertion.startsWithWord place.before) place.after
  refine Nat.le_trans (Nat.le_add_right _ _) (Regex.Machine.search_cost_le calledFrom 3
    (fun place further character stepped _ => ?_) (fun place => ?_) place)
  · rcases functions_cost place with free | ⟨_, _, again, none, cost⟩
    · obtain ⟨ahead, passed⟩ := (Cursor.next_some_iff place further character).mp stepped
      have onward := called_ahead_le (Regex.Assertion.startsWithWord place.before) character
        further.after
      rw [free, calledFrom, calledFrom, ahead, passed]
      change _ ≤ 3 + calledAhead (Unicode.isWord character) further.after
      omega
    · obtain ⟨_, rfl⟩ := Prod.mk.inj (Option.some.inj (again.symm.trans stepped))
      omega
  · rcases functions_cost place with free | ⟨_, further, stepped, none, cost⟩
    · have owed : calledFrom place ≤ place.after.length := bounded place
      omega
    · have shorter := Cursor.length_after_of_next? stepped
      have owed : calledFrom further ≤ further.after.length := bounded further
      omega

/-! ### Literals -/

/-- How many characters come before the next quote that is not behind a backslash. -/
def unescaped (quote : Char) : Bool → List Char → Nat
  | _, [] => 0
  | escaped, character :: others =>
    if character = quote ∧ escaped = false then 0
    else unescaped quote (character = '\\') others + 1

/-- All quotes up to the next that is not behind a backslash are followed by `>`. -/
def barren (quote : Char) : Bool → List Char → Bool
  | _, [] => true
  | escaped, character :: others =>
    (decide (character ≠ quote) || others.head? = some '>') &&
      (decide (character = quote ∧ escaped = false) || barren quote (character = '\\') others)

theorem unescaped_le_length (quote : Char) (escaped : Bool) (after : List Char) :
    unescaped quote escaped after ≤ after.length := by
  induction after generalizing escaped with
  | nil => exact Nat.le_refl _
  | cons character others induction =>
    rw [unescaped]
    split
    · exact Nat.zero_le _
    · exact Nat.succ_le_succ (induction _)

/-- A character other than the quote is passed over, and so is a quote behind a backslash. -/
theorem round_ends (quote : Char) (spot : Spot text) {character : Char} {further : Cursor text}
    (stepped : spot.here.next? = some (character, further)) :
    (roundCode quote).ends spot =
      (if character = '\\' then (Code.one (.single quote)).ends ⟨spot.marks, further⟩ else []) ++
        if character = quote then [] else [⟨spot.marks, further⟩] := by
  have complement : (CharClass.complement (union [.single quote])).contains character =
      !decide (character = quote) := by
    rw [← CharClass.contains_single_eq]
    rfl
  change ((Code.one (.single '\\')).ends spot).flatMap (Code.one (.single quote)).ends ++
    (Code.one (.complement (union [.single quote]))).ends spot = _
  rw [Code.ends_one_of_next _ _ stepped, Code.ends_one_of_next _ _ stepped, complement,
    CharClass.contains_single_eq]
  by_cases backslash : character = '\\'
  · subst backslash
    by_cases same : '\\' = quote <;> simp [same]
  · by_cases same : character = quote
    · subst same
      simp [backslash]
    · simp [backslash, same]

/-- What may stand between quotes goes on at a place in one of three ways: not at all, behind
another character, or behind a quote after a backslash, which may be left out again. -/
theorem round_cases {quote : Char} (apart : quote ≠ '\\') (spot : Spot text) :
    ((roundCode quote).ends spot = [] ∧ unescaped quote false spot.here.after = 0 ∧
      (spot.here.after = [] ∨ ∃ others, spot.here.after = quote :: others)) ∨
    (∃ character further, spot.here.next? = some (character, further) ∧
      (roundCode quote).ends spot = [⟨spot.marks, further⟩] ∧
      unescaped quote false spot.here.after = unescaped quote false further.after + 1 ∧
      barren quote false spot.here.after = barren quote false further.after) ∨
    (∃ further beyond, spot.here.next? = some ('\\', further) ∧
      further.next? = some (quote, beyond) ∧
      (roundCode quote).ends spot = [⟨spot.marks, beyond⟩, ⟨spot.marks, further⟩] ∧
      (roundCode quote).ends ⟨spot.marks, further⟩ = [] ∧
      unescaped quote false spot.here.after = unescaped quote false beyond.after + 2 ∧
      barren quote false spot.here.after =
        (decide (beyond.after.head? = some '>') && barren quote false beyond.after)) := by
  cases stepped : spot.here.next? with
  | none =>
    have ended := (Cursor.next_none_iff spot.here).mp stepped
    refine .inl ⟨?_, by rw [ended]; rfl, .inl ended⟩
    simp [roundCode, Code.ends, CharClass.ends, stepped]
  | some step =>
    obtain ⟨character, further⟩ := step
    obtain ⟨ahead, _⟩ := (Cursor.next_some_iff spot.here further character).mp stepped
    have ways := round_ends quote spot stepped
    by_cases same : character = quote
    · subst same
      rw [if_neg apart, if_pos rfl] at ways
      exact .inl ⟨ways, by rw [ahead, unescaped, if_pos ⟨rfl, rfl⟩], .inr ⟨_, ahead⟩⟩
    · rw [if_neg same] at ways
      by_cases backslash : character = '\\'
      · subst backslash
        rw [if_pos rfl] at ways
        cases onward : further.next? with
        | none =>
          have ended := (Cursor.next_none_iff further).mp onward
          rw [Code.ends_one_at_end _ ⟨spot.marks, further⟩ onward] at ways
          refine .inr (.inl ⟨_, _, rfl, ways, ?_, ?_⟩) <;>
            simp [ahead, ended, unescaped, barren, same]
        | some step =>
          obtain ⟨next, beyond⟩ := step
          obtain ⟨behind, _⟩ := (Cursor.next_some_iff further beyond next).mp onward
          rw [Code.ends_one_of_next _ ⟨spot.marks, further⟩ onward,
            CharClass.contains_single_eq] at ways
          by_cases quoted : next = quote
          · subst quoted
            rw [decide_eq_true rfl, if_pos rfl] at ways
            have none := round_ends next ⟨spot.marks, further⟩ onward
            rw [if_neg apart, if_pos rfl] at none
            refine .inr (.inr ⟨_, _, rfl, onward, ways, none, ?_, ?_⟩) <;>
              simp [ahead, behind, unescaped, barren, same, apart]
          · rw [decide_eq_false quoted, if_neg Bool.false_ne_true] at ways
            refine .inr (.inl ⟨_, _, rfl, ways, ?_, ?_⟩) <;>
              simp [ahead, behind, unescaped, barren, same, quoted]
      · rw [if_neg backslash] at ways
        refine .inr (.inl ⟨_, _, rfl, ways, ?_, ?_⟩) <;>
          simp [ahead, unescaped, barren, same, backslash]

theorem round_cost (quote : Char) (spot : Spot text) : (roundCode quote).cost spot = 1 := by
  simp [roundCode, Code.cost]

/-- What stands between quotes is gone over once, however many ways there are to end it.

Proof: induction over the text ahead. A quote behind a backslash that is left out ends the text
between quotes there. -/
theorem rounds_cost {quote : Char} (apart : quote ≠ '\\') (spot : Spot text) :
    Regex.starCost (roundCode quote).ends (roundCode quote).cost spot +
        (Regex.star Spot.here true (roundCode quote).ends spot).length =
      3 * unescaped quote false spot.here.after + 3 := by
  generalize left : spot.here.after.length = length
  induction length using Nat.strongRecOn generalizing spot with
  | ind length induction =>
    have stopped {spot : Spot text} (none : (roundCode quote).ends spot = []) :
        Regex.starCost (roundCode quote).ends (roundCode quote).cost spot = 2 ∧
          Regex.star Spot.here true (roundCode quote).ends spot = [spot] := by
      constructor
      · rw [Regex.starCost, none, round_cost]
        rfl
      · rw [Regex.star, none]
        rfl
    rcases round_cases apart spot with
      ⟨none, short, _⟩ | ⟨character, further, stepped, ways, longer, _⟩ |
        ⟨further, beyond, stepped, onward, ways, none, longer, _⟩
    · obtain ⟨cost, ends⟩ := stopped none
      rw [cost, ends, short]
      rfl
    · have first := Cursor.index_of_next? stepped
      have shorter := Cursor.length_after_of_next? stepped
      have rest := induction _ (left ▸ shorter) ⟨spot.marks, further⟩ rfl
      rw [Regex.starCost, Regex.star, ways, round_cost, longer]
      simp [Regex.prefer, first] at rest ⊢
      omega
    · have first : spot.here.index < further.index := by
        have moved := Cursor.index_of_next? stepped
        omega
      have second : spot.here.index < beyond.index := by
        have moved := Cursor.index_of_next? onward
        omega
      have shorter := Nat.lt_trans (Cursor.length_after_of_next? onward)
        (Cursor.length_after_of_next? stepped)
      have rest := induction _ (left ▸ shorter) ⟨spot.marks, beyond⟩ rfl
      obtain ⟨cost, ends⟩ := stopped none
      rw [Regex.starCost, Regex.star, ways, round_cost, longer]
      simp [Regex.prefer, first, second, cost, ends] at rest ⊢
      omega

/-- The look behind a quote fails in front of `>`. -/
theorem unmarked_ends (spot : Spot text) :
    (Code.look 0 true (.one (.single '>'))).ends spot =
      if spot.here.after.head? = some '>' then [] else [spot] := by
  change (if ((Code.one (.single '>')).ends spot).isEmpty then [spot] else []) = _
  cases stepped : spot.here.next? with
  | none => simp [Code.ends_one_at_end _ _ stepped, (Cursor.next_none_iff spot.here).mp stepped]
  | some step =>
    obtain ⟨character, further⟩ := step
    obtain ⟨ahead, _⟩ := (Cursor.next_some_iff spot.here further character).mp stepped
    rw [Code.ends_one_of_next _ _ stepped, CharClass.contains_single_eq, ahead]
    by_cases marked : character = '>' <;> simp [marked]

/-- A quote that does not end a literal is followed by `>`. -/
theorem marked_of_quote_fails {quote : Char} {spot : Spot text} {others : List Char}
    (ahead : spot.here.after = quote :: others) (failed : (quoteCode quote).ends spot = []) :
    others.head? = some '>' := by
  obtain ⟨further, stepped, rest, _⟩ := Cursor.next_of_after ahead
  have single : (Code.one (.single quote)).ends spot = [⟨spot.marks, further⟩] := by
    rw [Code.ends_one_of_next _ _ stepped, if_pos (by simp [CharClass.contains_single_eq])]
  by_contra unmarked
  change ((Code.one (.single quote)).ends spot).flatMap _ = [] at failed
  rw [single, List.flatMap_singleton, unmarked_ends, rest, if_neg unmarked] at failed
  cases failed

/-- If no quote ends the text between quotes that begins at a place, all quotes are followed by
`>`, up to the next that is not behind a backslash. -/
theorem rounds_barren {quote : Char} (apart : quote ≠ '\\') (spot : Spot text)
    (failed : ∀ reached ∈ Regex.star Spot.here true (roundCode quote).ends spot,
      (quoteCode quote).ends reached = []) : barren quote false spot.here.after := by
  generalize left : spot.here.after.length = length
  induction length using Nat.strongRecOn generalizing spot with
  | ind length induction =>
    rcases round_cases apart spot with
      ⟨_, _, ended | ⟨others, ahead⟩⟩ | ⟨character, further, stepped, ways, _, same⟩ |
        ⟨further, beyond, stepped, onward, ways, _, _, same⟩
    · rw [ended]
      rfl
    · have next := marked_of_quote_fails ahead (failed spot (Regex.mem_star_self spot))
      simp [ahead, barren, next]
    · have first := Nat.lt_of_succ_le (Nat.le_of_eq (Cursor.index_of_next? stepped).symm)
      have shorter := Cursor.length_after_of_next? stepped
      rw [same]
      refine induction _ (left ▸ shorter) ⟨spot.marks, further⟩ (fun reached listed => ?_) rfl
      exact failed reached (Regex.mem_star_of_round (by simp [ways]) first listed)
    · have first : spot.here.index < further.index := by
        have moved := Cursor.index_of_next? stepped
        omega
      have second : spot.here.index < beyond.index := by
        have moved := Cursor.index_of_next? onward
        omega
      have shorter := Nat.lt_trans (Cursor.length_after_of_next? onward)
        (Cursor.length_after_of_next? stepped)
      obtain ⟨behind, _⟩ := (Cursor.next_some_iff further beyond quote).mp onward
      have rest := induction _ (left ▸ shorter) ⟨spot.marks, beyond⟩ (fun reached listed =>
        failed reached (Regex.mem_star_of_round (by simp [ways]) second listed)) rfl
      have next := marked_of_quote_fails behind (failed ⟨spot.marks, further⟩
        (Regex.mem_star_of_round (by simp [ways]) first (Regex.mem_star_self _)))
      rw [same, next]
      simpa using rest

/-- The look in front of the text between quotes, that text, and the quote behind it. -/
def insideCode (quote : Char) : Code :=
  .sequence (.look 0 true (.one (.single '>')))
    (.sequence (.repetition (roundCode quote) 0 none true) (quoteCode quote))

/-- Where no quote is next, there is nothing to try between quotes. -/
theorem quoted_elsewhere {quote : Char} {place further : Cursor text} {character : Char}
    (stepped : place.next? = some (character, further)) (other : character ≠ quote) :
    (quotedCode quote).cost (beginning place) = 0 := by
  rw [quotedCode, Code.cost_one_of_next _ _ (beginning place) stepped,
    CharClass.contains_single_eq, decide_eq_false other, if_neg Bool.false_ne_true]

/-- Behind a quote, the text between quotes is tried. -/
theorem quoted_behind_quote {quote : Char} {place further : Cursor text}
    (stepped : place.next? = some (quote, further)) :
    (quotedCode quote).cost (beginning place) =
        (insideCode quote).cost ⟨(beginning place).marks, further⟩ ∧
      (quotedCode quote).ends (beginning place) =
        (insideCode quote).ends ⟨(beginning place).marks, further⟩ := by
  have contained : (CharClass.single quote).contains quote := CharClass.contains_single.mpr rfl
  constructor
  · rw [quotedCode, Code.cost_one_of_next _ _ (beginning place) stepped, if_pos contained]
    rfl
  · rw [quotedCode, Code.ends, Code.ends_one_of_next _ (beginning place) stepped,
      if_pos contained, List.flatMap_singleton]
    rfl

/-- In front of `>` the try between quotes is over. -/
theorem inside_marked {quote : Char} {spot : Spot text} (marked : spot.here.after.head? = some '>') :
    (insideCode quote).cost spot = 1 := by
  rw [insideCode, Code.cost, unmarked_ends, if_pos marked]
  rfl

/-- The text between quotes costs what lies ahead up to the next quote that is not behind a
backslash. If no quote ends it, all quotes up to there are followed by `>`. -/
theorem inside_unmarked {quote : Char} (apart : quote ≠ '\\') (spot : Spot text)
    (unmarked : spot.here.after.head? ≠ some '>') :
    (insideCode quote).cost spot ≤ 3 * unescaped quote false spot.here.after + 4 ∧
      ((insideCode quote).ends spot = [] → barren quote false spot.here.after) := by
  let rounds := Code.repetition (roundCode quote) 0 none true
  obtain ⟨cost, ends⟩ := Code.cost_star (roundCode quote) true spot
  constructor
  · have looked : (insideCode quote).cost spot = 1 + (Code.sequence rounds (quoteCode quote)).cost spot := by
      rw [insideCode, Code.cost, unmarked_ends, if_neg unmarked]
      simp [rounds, Code.cost, Cursor.back?]
    have closing (reached : Spot text) : (quoteCode quote).cost reached ≤ 1 := by
      change (Code.sequences [.one (.single quote), .look 0 true (.one (.single '>'))]).cost reached ≤ 1
      exact Code.cost_one_sequences_le (fun spot => Nat.le_of_eq rfl) reached
    have ended : ((rounds.ends spot).map (quoteCode quote).cost).sum ≤ (rounds.ends spot).length := by
      have bounded := List.sum_le_card_nsmul ((rounds.ends spot).map (quoteCode quote).cost) 1
        (by simpa using fun reached _ => closing reached)
      simpa using bounded
    have whole : rounds.cost spot + (rounds.ends spot).length =
        3 * unescaped quote false spot.here.after + 3 := by
      rw [cost, ends]
      exact rounds_cost apart spot
    rw [looked, Code.cost]
    omega
  · intro failed
    refine rounds_barren apart spot fun reached listed => ?_
    rw [← ends] at listed
    rw [insideCode, Code.ends, unmarked_ends, if_neg unmarked, List.flatMap_singleton, Code.ends,
      List.flatMap_eq_nil_iff] at failed
    exact failed reached listed

/-- What earlier tries between quotes of the kind have spent on the text ahead of a place. -/
def spentBetween (quote : Char) (escaped : Bool) (after : List Char) : Nat :=
  if barren quote escaped after then 3 * unescaped quote escaped after else 0

/-- What earlier tries have spent ahead of a place. -/
def spentFrom (quote : Char) (place : Cursor text) : Nat :=
  spentBetween quote (place.before.head? = some '\\') place.after

theorem spent_from_le (quote : Char) (place : Cursor text) :
    spentFrom quote place ≤ 3 * place.after.length := by
  have bounded := unescaped_le_length quote (place.before.head? = some '\\') place.after
  unfold spentFrom spentBetween
  split <;> omega

/-- One character further, what is ahead is at most one character less. -/
theorem spent_between_le (quote : Char) (escaped : Bool) (character : Char) (others : List Char) :
    spentBetween quote escaped (character :: others) ≤
      spentBetween quote (character = '\\') others + 3 := by
  unfold spentBetween
  by_cases stops : character = quote ∧ escaped = false
  · simp [unescaped, stops]
  · have longer : unescaped quote escaped (character :: others) =
        unescaped quote (character = '\\') others + 1 := by rw [unescaped, if_neg stops]
    by_cases all : barren quote escaped (character :: others)
    · have rest : barren quote (character = '\\') others := by
        rw [barren, decide_eq_false stops, Bool.false_or, Bool.and_eq_true] at all
        exact all.2
      rw [if_pos all, if_pos rest, longer]
      omega
    · rw [if_neg all]
      exact Nat.zero_le _

/-- A failed try between quotes of a kind costs what is then spent ahead of the next place. -/
theorem quoted_passing {quote : Char} (apart : quote ≠ '\\') {place further : Cursor text}
    {character : Char} (stepped : place.next? = some (character, further))
    (failed : (quotedCode quote).ends (beginning place) = []) :
    (quotedCode quote).cost (beginning place) + spentFrom quote place ≤
      spentFrom quote further + 4 := by
  obtain ⟨ahead, passed⟩ := (Cursor.next_some_iff place further character).mp stepped
  have onward : spentFrom quote place ≤ spentFrom quote further + 3 := by
    have step := spent_between_le quote (place.before.head? = some '\\') character further.after
    rw [spentFrom, spentFrom, ahead, passed]
    simpa using step
  by_cases same : character = quote
  · subst same
    obtain ⟨cost, ends⟩ := quoted_behind_quote stepped
    by_cases marked : further.after.head? = some '>'
    · rw [cost, inside_marked marked]
      omega
    · obtain ⟨bounded, unended⟩ := inside_unmarked apart
        ⟨(beginning place).marks, further⟩ marked
      have all := unended (ends ▸ failed)
      have ahead' : spentFrom character further = 3 * unescaped character false further.after := by
        rw [spentFrom, passed, List.head?_cons, spentBetween]
        simp only [Option.some.injEq, apart, decide_false]
        exact if_pos all
      have here : spentFrom character place = 0 := by
        rw [spentFrom, ahead, spentBetween, if_neg]
        simp [barren, marked]
      rw [cost, here, ahead']
      exact bounded
  · rw [quoted_elsewhere stepped same]
    omega

/-- A try between quotes of a kind costs three steps for each character ahead at most. -/
theorem quoted_cost_le {quote : Char} (apart : quote ≠ '\\') (place : Cursor text) :
    (quotedCode quote).cost (beginning place) ≤ 3 * place.after.length + 1 := by
  cases stepped : place.next? with
  | none => simp [quotedCode, Code.cost, Code.ends_one_at_end _ (beginning place) stepped]
  | some step =>
    obtain ⟨character, further⟩ := step
    have shorter := Cursor.length_after_of_next? stepped
    by_cases same : character = quote
    · subst same
      obtain ⟨cost, _⟩ := quoted_behind_quote stepped
      by_cases marked : further.after.head? = some '>'
      · rw [cost, inside_marked marked]
        omega
      · obtain ⟨bounded, _⟩ := inside_unmarked apart
          ⟨(beginning place).marks, further⟩ marked
        have short := unescaped_le_length character false further.after
        rw [cost]
        simp only at bounded
        omega
    · rw [quoted_elsewhere stepped same]
      exact Nat.zero_le _

/-- A search for literals costs twelve steps for each character at most. -/
theorem literals_search_le (place : Cursor text) :
    Regex.Machine.searchCost literalsCode place ≤ 12 * (place.after.length + 1) := by
  refine Nat.le_trans (Nat.le_add_right _ _) (Regex.Machine.search_cost_le
    (fun place => spentFrom '\'' place + spentFrom '"' place) 12
    (fun place further character stepped failed => ?_) (fun place => ?_) place)
  · obtain ⟨single, double⟩ := List.append_eq_nil_iff.mp failed
    have first := quoted_passing (by decide) stepped single
    have second := quoted_passing (by decide) stepped double
    rw [literalsCode, Code.cost]
    omega
  · have first := quoted_cost_le (show '\'' ≠ '\\' by decide) place
    have second := quoted_cost_le (show '"' ≠ '\\' by decide) place
    have spentFirst := spent_from_le '\'' place
    have spentSecond := spent_from_le '"' place
    rw [literalsCode, Code.cost]
    omega

/-! ### All patterns -/

/-- How often a search with a pattern of Dart may go back for each character ahead of it. -/
def stepsPerCharacter : Nat := 128

/-- Every expression of the plan has a matcher, which goes back no more than so often for each
character. -/
theorem plan_made : ∀ part ∈ plan, ∃ made, matcher part.2 = .ok made ∧
    ∀ code, made = .machine code → ∀ {text : List Char} (place : Cursor text),
      Regex.Machine.searchCost code place ≤ stepsPerCharacter * (place.after.length + 1) := by
  have within {code : Code} {rate : Nat} (small : rate ≤ stepsPerCharacter)
      (bounded : ∀ {text : List Char} (place : Cursor text),
        Regex.Machine.searchCost code place ≤ rate * (place.after.length + 1)) :
      ∀ other, Regex.Matcher.machine code = .machine other → ∀ {text : List Char}
        (place : Cursor text),
        Regex.Machine.searchCost other place ≤ stepsPerCharacter * (place.after.length + 1) := by
    rintro other same text place
    obtain rfl := Regex.Matcher.machine.inj same
    exact Nat.le_trans (bounded place) (Nat.mul_le_mul_right _ small)
  have automatic {automaton : Regex.Automaton} :
      ∀ code, Regex.Matcher.automaton automaton = .machine code → ∀ {text : List Char}
        (place : Cursor text),
        Regex.Machine.searchCost code place ≤ stepsPerCharacter * (place.after.length + 1) := by
    rintro code same
    cases same
  intro part listed
  simp only [plan, List.mem_cons, List.not_mem_nil, or_false] at listed
  rcases listed with rfl | rfl | rfl | rfl | rfl | rfl
  · exact ⟨_, keywords_matcher, within (by decide) (keywords_search_le words)⟩
  · exact ⟨_, literals_matcher, within (by decide) literals_search_le⟩
  · exact ⟨_, functions_matcher, within (by decide) functions_search_le⟩
  · exact ⟨_, numbers_matcher, automatic⟩
  · exact ⟨_, classes_matcher, automatic⟩
  · exact ⟨_, comments_matcher, automatic⟩

end Highlighter.Dart

import Highlighter.Proofs.Dart.Patterns
import Highlighter.Proofs.Regex.Matched

/-!
# What the patterns of Dart match

The shape of the matches of types, comments and literals. What is said of literals is about
the quotes: a quote of the kind that a literal begins with is inside of it only behind a
backslash.
-/

namespace Highlighter.Dart

open Text (Cursor)
open Regex (Expr CharClass)

/-- What begins with a word does so whatever comes behind. -/
theorem starts_with_word_append {former : List Char}
    (starts : Regex.Assertion.startsWithWord former) (latter : List Char) :
    Regex.Assertion.startsWithWord (former ++ latter) := by
  cases former with
  | nil => cases starts
  | cons character others => exact starts

/-- A match of a type is the name of a type up to the end of the word, or the name of a class
with what may belong to it. -/
theorem classes_match {text : List Char} {first last : Cursor text}
    (member : last ∈ classes.ends first) :
    (∃ name ∈ typeNames, first.after = name.toList ++ last.after ∧
      Regex.Assertion.startsWithWord last.after = false) ∨
    (∃ named argued, named ∈ (Expr.sequences className).ends first ∧
      argued ∈ (optional typeArgument).ends named ∧
      last ∈ (optional arguments).ends argued) := by
  obtain ⟨begun, boundary, others⟩ := Expr.mem_sequences_cons.mp member
  obtain ⟨rfl, _⟩ := Expr.mem_assertion boundary
  obtain ⟨ended, chosen, boundary⟩ := Expr.mem_sequences_cons.mp others
  obtain ⟨rfl, holds⟩ := Expr.mem_assertion boundary
  obtain ⟨option, listed, matched⟩ := Expr.exists_of_mem_alternatives (by decide) chosen
  rcases List.mem_append.mp listed with typed | classed
  · obtain ⟨position, inside, rfl⟩ := List.mem_mapIdx.mp typed
    have ahead := Expr.after_of_mem_word matched
    have spelled : ∀ name ∈ typeNames,
        Regex.Assertion.startsWithWord name.toList.reverse := by decide
    have before := starts_with_word_append (spelled _ (List.getElem_mem inside)) begun.before
    rw [← Cursor.before_of_after ahead] at before
    exact .inl ⟨_, List.getElem_mem inside, ahead,
      by simpa [Regex.Assertion.holds, before] using holds⟩
  · obtain rfl := List.mem_singleton.mp classed
    obtain ⟨named, first, others⟩ := Expr.mem_sequences_append.mp matched
    obtain ⟨argued, second, third⟩ := Expr.mem_sequences_cons.mp others
    exact .inr ⟨named, argued, first, second, third⟩

/-- A comment begins with two signs; it is a line up to its end, or ends with two signs. -/
theorem comments_match {text : List Char} {first last : Cursor text}
    (preferred : (comments.ends first).head? = some last) :
    (∃ stretch, first.after = '/' :: '/' :: (stretch ++ last.after) ∧
        ∀ next rest, last.after = next :: rest → next = '\n') ∨
      ∃ stretch, first.after = '/' :: '*' :: (stretch ++ '*' :: '/' :: last.after) := by
  obtain ⟨option, listed, matched⟩ := Expr.exists_of_head_alternatives (by decide) preferred
  rcases List.mem_pair.mp listed with rfl | rfl
  · obtain ⟨middle, begin, others⟩ := Expr.exists_of_head_sequences matched
    obtain ⟨begun, second, many⟩ := Expr.exists_of_head_sequences others
    obtain ⟨stretch, ahead, _⟩ := Expr.stretch_within (fun _ => True)
      (List.mem_of_mem_head? many) (by decide) fun _ _ => trivial
    refine .inl ⟨stretch, ?_, fun next rest follows => ?_⟩
    · rw [Expr.after_of_mem_literal begin, Expr.after_of_mem_literal second, ahead]
    · have stops : (!(false || (CharClass.single '\n').contains next)) = false :=
        Expr.head_many_stops many follows
      rw [Bool.false_or, Bool.not_eq_false'] at stops
      exact CharClass.contains_single.mp stops
  · obtain ⟨middle, begin, others⟩ := Expr.mem_sequences_cons.mp (List.mem_of_mem_head? matched)
    obtain ⟨begun, second, others⟩ := Expr.mem_sequences_cons.mp others
    obtain ⟨ended, many, others⟩ := Expr.mem_sequences_cons.mp others
    obtain ⟨further, third, fourth⟩ := Expr.mem_sequences_cons.mp others
    obtain ⟨stretch, ahead, _⟩ := Expr.stretch_within (fun _ => True) many (by decide)
      fun _ _ => trivial
    refine .inr ⟨stretch, ?_⟩
    rw [Expr.after_of_mem_literal begin, Expr.after_of_mem_literal second, ahead,
      Expr.after_of_mem_literal third, Expr.after_of_mem_literal fourth]

/-- What can stand between two quotes of a kind: other characters, and quotes behind a
backslash. -/
inductive Between (quote : Char) : List Char → Prop where
  | nil : Between quote []
  | escaped {rest : List Char} (others : Between quote rest) :
      Between quote ('\\' :: quote :: rest)
  | other {character : Char} {rest : List Char} (different : character ≠ quote)
      (others : Between quote rest) : Between quote (character :: rest)

theorem Between.append {quote : Char} {former latter : List Char} (begun : Between quote former)
    (ended : Between quote latter) : Between quote (former ++ latter) := by
  induction begun with
  | nil => exact ended
  | escaped _ induction => exact .escaped induction
  | other different _ induction => exact .other different induction

/-- Where no backslash comes before the first quote, this quote ends what can stand between
quotes. -/
theorem Between.first_quote {quote : Char} {stretch clean after rest : List Char}
    (between : Between quote stretch) (apart : quote ≠ '\\')
    (unquoted : ∀ character ∈ clean, character ≠ quote ∧ character ≠ '\\')
    (same : stretch ++ quote :: after = clean ++ quote :: rest) : after = rest := by
  induction between generalizing clean with
  | nil =>
    cases clean with
    | nil => exact (List.cons.inj same).2
    | cons character others =>
      exact absurd (List.cons.inj same).1.symm (unquoted character List.mem_cons_self).1
  | escaped _ induction =>
    cases clean with
    | nil => exact absurd (List.cons.inj same).1.symm apart
    | cons character others =>
      exact absurd (List.cons.inj same).1.symm (unquoted character List.mem_cons_self).2
  | other different _ induction =>
    cases clean with
    | nil => exact absurd (List.cons.inj same).1 different
    | cons character others =>
      exact induction (fun other listed => unquoted other (List.mem_cons_of_mem _ listed))
        (List.cons.inj same).2

/-- A round of a quoted text is a quote behind a backslash, or another character. -/
theorem quoted_round {quote : Char} {group : Nat} {text : List Char} {first last : Cursor text}
    (member : last ∈ (quotedRound quote group).ends first) :
    ∃ stretch, first.after = stretch ++ last.after ∧ Between quote stretch := by
  obtain ⟨option, listed, matched⟩ := Expr.exists_of_mem_alternatives (by simp) member
  rcases List.mem_pair.mp listed with rfl | rfl
  · exact ⟨['\\', quote], Expr.after_of_mem_word matched, .escaped .nil⟩
  · obtain ⟨character, ahead, contained⟩ := CharClass.after_of_mem_ends matched
    refine ⟨[character], ahead, .other (fun same => ?_) .nil⟩
    have single : (CharClass.single quote).contains character := CharClass.contains_single.mpr same
    simp [union, CharClass.contains, single] at contained

/-- A match of a quoted text lies between two quotes, and `>` follows neither of them. -/
theorem quoted_match {quote : Char} {group : Nat} {text : List Char} {first last : Cursor text}
    (member : last ∈ (quoted quote group).ends first) :
    ∃ stretch, first.after = quote :: (stretch ++ quote :: last.after) ∧ Between quote stretch ∧
      (stretch ++ quote :: last.after).head? ≠ some '>' ∧ last.after.head? ≠ some '>' := by
  obtain ⟨_, opens, inside⟩ := Expr.mem_sequences_cons.mp member
  obtain ⟨begun, unmarked, content⟩ := Expr.mem_sequences_cons.mp inside
  obtain ⟨rfl, missing⟩ := Expr.mem_look_ahead_negated unmarked
  obtain ⟨ended, many, further⟩ := Expr.mem_sequences_cons.mp content
  obtain ⟨_, closes, behind⟩ := Expr.mem_sequences_cons.mp further
  obtain ⟨rfl, absent⟩ := Expr.mem_look_ahead_negated behind
  obtain ⟨stretch, ahead, between⟩ : ∃ stretch, begun.after = stretch ++ ended.after ∧
      Between quote stretch :=
    Regex.repeated_invariant
      (fun place : Cursor text => ∃ stretch, begun.after = stretch ++ place.after ∧
        Between quote stretch)
      (fun place reached passed member => by
        obtain ⟨stretch, ahead, between⟩ := passed
        obtain ⟨more, onward, further⟩ := quoted_round member
        exact ⟨stretch ++ more, by rw [ahead, onward, List.append_assoc], between.append further⟩)
      ⟨[], rfl, .nil⟩ many
  have quoted := Expr.after_of_mem_literal closes
  refine ⟨stretch, ?_, between, ?_, Expr.literal_not_ahead absent⟩
  · rw [Expr.after_of_mem_literal opens, ahead, quoted]
  · rw [← quoted, ← ahead]
    exact Expr.literal_not_ahead missing

end Highlighter.Dart

import Highlighter.Proofs.Dart.Scanning
import Highlighter.Proofs.Regex.Trying

/-!
# Where calls and numbers end

Both patterns pass over runs of parts of words and ask for a boundary behind them. No word begins
or ends inside of such a run, so a run that gives characters back leads nowhere: its end is the only
one that counts, and `callEnd?` and `numberEnd?` tell the end of a match without any choice.

What is a part of a word is said for all of Unicode, but a name begins with a letter of ASCII or
an underscore. So a word that begins with another letter is no call, and neither is the rest of it.
-/

namespace Highlighter.Dart

open Text (Cursor)
open Regex (Expr CharClass runEnd isWordAt isWordBefore)
open Regex.Follow

/-- A name can begin with the character: it is a letter of ASCII or an underscore. -/
def beginsName (character : Char) : Bool := character.isAlpha || character = '_'

/-- Where the call ends that begins at the position, if one does: a whole word that can be a name,
with the blanks behind it, in front of a parenthesis. -/
def callEnd? (text : List Char) (position : Nat) : Option Nat :=
  let name := runEnd text Unicode.isWord position
  let blanks := runEnd text (· = ' ') name
  if isWordBefore text position = false ∧ text[position]?.any beginsName ∧
      text[blanks]? = some '(' then
    some blanks
  else none

/-- Where the number ends that begins at the position, if one does: behind the digits, or behind
those that follow a period, where no word goes on. -/
def numberEnd? (text : List Char) (position : Nat) : Option Nat :=
  let whole := runEnd text Unicode.isDigit position
  let fraction := runEnd text Unicode.isDigit (whole + 1)
  if isWordBefore text position = true ∨ whole = position then none
  else if text[whole]? = some '.' ∧ whole + 1 < fraction ∧ isWordAt text fraction = false then
    some fraction
  else if isWordAt text whole then none
  else some whole

variable {text : List Char} {position : Nat}

/-- What the pattern of names begins with is what a name can begin with. -/
theorem name_begin_contains : nameBegin.contains = beginsName := by
  funext character
  change (((false || lower.contains character) || upper.contains character) ||
    (CharClass.single '_').contains character) = _
  rw [lower_contains, upper_contains, CharClass.contains_single_eq, Bool.false_or, beginsName,
    Char.isAlpha, Bool.or_comm character.isLower]

/-- What a name can begin with belongs to words. -/
theorem word_of_begins_name {character : Char} (begins : beginsName character) :
    Unicode.isWord character :=
  isWord_of_name_begin (by rwa [name_begin_contains])

/-- Where a name can begin a word goes on. -/
theorem word_at_of_begins_name (begins : text[position]?.any beginsName) : isWordAt text position :=
  Regex.any_of_kinds (fun _ => word_of_begins_name) begins

/-- The calls of Dart, by what they make of what follows. -/
theorem functions_try : functions.Tries text
    (atBoundary text ∘ past text beginsName ∘ pastMany text Unicode.isWord ∘ atBoundary text ∘
      pastMany text (· = ' ') ∘ ahead text (· = '(')) := by
  have begins : (Expr.one (some nameBegin)).Tries text _ := .one nameBegin
  have blanks : (atLeast 0 (sign ' ')).Tries text _ := .many (.single ' ')
  have parenthesis : (Expr.look .ahead false (sign '(')).Tries text _ := .look_ahead (.single '(')
  rw [name_begin_contains] at begins
  rw [funext (CharClass.contains_single_eq _)] at blanks parenthesis
  exact .sequences_cons .boundary (.sequences_cons begins (.sequences_cons (.many (.having .word))
    (.sequences_cons .boundary (.sequences_cons blanks parenthesis))))

/-- Pass over digits, at least one. -/
def pastDigits (text : List Char) (follow : Regex.Follow) : Regex.Follow :=
  past text Unicode.isDigit (pastMany text Unicode.isDigit follow)

/-- The numbers of Dart, by what they make of what follows. -/
theorem numbers_try : numbers.Tries text
    (atBoundary text ∘ pastDigits text ∘ perhaps (past text (· = '.') ∘ pastDigits text) ∘
      atBoundary text) := by
  have digits : Expr.Tries text Dart.digits (pastDigits text) := .at_least_one (.having .digit)
  exact .sequences_cons .boundary (.sequences_cons digits (.sequences_cons
    (.optional (.capture 1 (.sequences_cons (.letter '.') digits))) .boundary))

/-- The preferred call that begins at a place is the one that the text tells.

Proof: the attempt behind the name fails inside of a word, and the one behind the blanks in front
of a blank. So the ends of the two runs are the only positions that count. -/
theorem call_end_agrees (place : Cursor text) :
    callEnd? text place.index = (functions.ends place).head?.map Cursor.index := by
  rw [functions_try.head place]
  generalize place.index = position
  let spaced := pastMany text (· = ' ') (ahead text (· = '(') some)
  let begun := past text beginsName (pastMany text Unicode.isWord (atBoundary text spaced))
  have blanks_end (other : Nat) : spaced other =
      ahead text (· = '(') some (runEnd text (· = ' ') other) := by
    refine many_at_end fun between behind inside => ?_
    rw [ahead_letter, if_neg (Regex.ne_of_run (by decide) behind inside)]
  have named : begun position = if text[position]?.any beginsName then
      atBoundary text spaced (runEnd text Unicode.isWord position) else none :=
    first_at_end (fun _ => word_of_begins_name) fun between => at_boundary_of_run fun _ word => word
  change _ = atBoundary text begun position
  by_cases begins : text[position]?.any beginsName
  · have word := word_at_of_begins_name begins
    have ended : isWordAt text (runEnd text Unicode.isWord position) = false := Regex.run_stops
    rw [if_pos begins, at_boundary_behind (Regex.word_before_of_run (fun _ word => word)
      (Regex.lt_run_end_iff.mpr word) (Nat.le_refl _)), ended, if_neg Bool.false_ne_true,
      blanks_end, ahead_letter] at named
    rw [at_boundary_ahead word, named, callEnd?]
    cases isWordBefore text position <;> simp [begins]
  · -- Without the begin of a name the boundary may hold or not.
    rw [if_neg begins] at named
    rw [atBoundary, named, ite_self, callEnd?, if_neg fun all => begins all.2.1]

example : callEnd? "f_1  (x)".toList 0 = some 5 := by decide
example : callEnd? "1f(x)".toList 1 = none := by decide

/-- Digits that end a word are all that there are. -/
theorem past_digits_at_boundary : pastDigits text (atBoundary text some) position =
    if position < runEnd text Unicode.isDigit position ∧
      isWordAt text (runEnd text Unicode.isDigit position) = false
    then some (runEnd text Unicode.isDigit position) else none := by
  rw [pastDigits, some_at_end fun _ => at_boundary_of_run fun _ => Unicode.isWord_of_isDigit]
  by_cases filled : position < runEnd text Unicode.isDigit position
  · have ended := Regex.word_before_of_run (fun _ => Unicode.isWord_of_isDigit) filled
      (Nat.le_refl _)
    rw [if_pos filled, at_boundary_behind ended]
    cases isWordAt text (runEnd text Unicode.isDigit position) <;> simp [filled]
  · rw [if_neg filled, if_neg fun both => filled both.1]

/-- Behind digits a fraction that ends a word is preferred to the end of the digits. -/
theorem past_fraction (behind : isWordBefore text position) :
    perhaps (past text (· = '.') ∘ pastDigits text) (atBoundary text some) position =
      let fraction := runEnd text Unicode.isDigit (position + 1)
      if text[position]? = some '.' ∧ position + 1 < fraction ∧ isWordAt text fraction = false then
        some fraction
      else if isWordAt text position then none
      else some position := by
  rw [perhaps, Function.comp_apply, past_letter, past_digits_at_boundary, at_boundary_behind behind]
  simp only [ite_and]
  split_ifs <;> rfl

/-- The preferred number that begins at a place is the one that the text tells.

Proof: inside of digits no word ends and no period follows, so the ends of the two runs of digits
are the only positions that count. -/
theorem number_end_agrees (place : Cursor text) :
    numberEnd? text place.index = (numbers.ends place).head?.map Cursor.index := by
  rw [numbers_try.head place]
  generalize place.index = position
  let fraction := perhaps (past text (· = '.') ∘ pastDigits text) (atBoundary text some)
  have fails : ∀ between, position < between → between < runEnd text Unicode.isDigit position →
      fraction between = none := by
    intro between behind inside
    change (past text (· = '.') _ between).or (atBoundary text some between) = none
    rw [past_letter, if_neg (Regex.ne_of_run (by decide) (Nat.le_of_lt behind) inside),
      Option.none_or, at_boundary_of_run (fun _ => Unicode.isWord_of_isDigit) behind inside]
  have whole : pastDigits text fraction position =
      if position < runEnd text Unicode.isDigit position then
        fraction (runEnd text Unicode.isDigit position) else none := some_at_end fails
  change _ = atBoundary text (pastDigits text fraction) position
  by_cases filled : position < runEnd text Unicode.isDigit position
  · have words : ∀ digit, Unicode.isDigit digit → Unicode.isWord digit :=
      fun _ => Unicode.isWord_of_isDigit
    have word := Regex.word_at_of_run words (Nat.le_refl position) filled
    have ended := Regex.word_before_of_run words filled (Nat.le_refl _)
    rw [at_boundary_ahead word, whole, if_pos filled, show fraction _ = _ from past_fraction ended,
      numberEnd?]
    cases isWordBefore text position <;> simp [Nat.ne_of_gt filled]
  · have same : runEnd text Unicode.isDigit position = position :=
      Nat.le_antisymm (Nat.le_of_not_lt filled) Regex.le_run_end
    rw [atBoundary, whole, if_neg filled, ite_self, numberEnd?, if_pos (.inr same)]

example : numberEnd? "3.14abc".toList 0 = some 1 := by decide
example : numberEnd? "1.2.3".toList 0 = some 3 := by decide

/-- A call that begins at a position ends behind it, and no other one begins in between: either a
word comes before, or a blank is there. -/
theorem calls_apart {last : Nat} (ends : callEnd? text position = some last) :
    position < last ∧ last ≤ text.length ∧
      ∀ between, position < between → between < last → callEnd? text between = none := by
  rw [callEnd?] at ends
  obtain ⟨⟨before, begins, parenthesis⟩, same⟩ := Option.ite_none_right_eq_some.mp ends
  obtain rfl := Option.some.inj same
  have filled : position < runEnd text Unicode.isWord position :=
    Regex.lt_run_end_iff.mpr (word_at_of_begins_name begins)
  obtain ⟨inside, _⟩ := List.getElem?_eq_some_iff.mp parenthesis
  refine ⟨Nat.lt_of_lt_of_le filled Regex.le_run_end, Nat.le_of_lt inside, ?_⟩
  intro between behind within
  rw [callEnd?]
  by_cases named : between ≤ runEnd text Unicode.isWord position
  · have word := Regex.word_before_of_run (fun _ word => word) behind named
    rw [if_neg fun all => Bool.false_ne_true (all.1.symm.trans word)]
  · obtain ⟨sign, there, blank⟩ := (Option.any_eq_true _ _).mp
      (Regex.kind_of_run (Nat.le_of_not_le named) within)
    obtain rfl : sign = ' ' := of_decide_eq_true blank
    rw [there, if_neg fun all => absurd all.2.1 (by decide)]

end Highlighter.Dart

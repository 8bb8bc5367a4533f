import Highlighter.Regex.CharClass
import Mathlib

/-!
# Which characters words are made of

Letters and digits belong to words, whatever the script. The sets by which patterns ask for
letters are those of ASCII, so they are decided by the code of a character.
-/

namespace Highlighter.Unicode

open Regex (CharClass)

/-- The letters of ASCII are among its characters. -/
theorem small_of_isAlpha {character : Char} (letter : character.isAlpha) :
    character.toNat < 0x80 := by
  simp only [Char.isAlpha, Char.isUpper, Char.isLower, Bool.or_eq_true, Bool.and_eq_true,
    decide_eq_true_eq] at letter
  rcases letter with bounds | bounds <;>
    · have above := UInt32.le_iff_toNat_le.mp bounds.2
      exact Nat.lt_of_le_of_lt above (by decide)

/-- The letters of ASCII belong to words. -/
theorem isWord_of_isAlpha {character : Char} (letter : character.isAlpha) : isWord character := by
  rw [isWord, if_pos (small_of_isAlpha letter), isAsciiWord, Char.isAlphanum, letter]
  rfl

/-- The letters of ASCII are no digits. -/
theorem isDigit_of_isAlpha {character : Char} (letter : character.isAlpha) :
    isDigit character = false := by
  rw [isDigit, if_pos (small_of_isAlpha letter)]
  simp only [Char.isAlpha, Char.isUpper, Char.isLower, Bool.or_eq_true, Bool.and_eq_true,
    decide_eq_true_eq] at letter
  rw [Char.isDigit, Bool.and_eq_false_iff, decide_eq_false_iff_not, decide_eq_false_iff_not]
  refine .inr fun below => ?_
  have bound := UInt32.le_iff_toNat_le.mp below
  rcases letter with bounds | bounds
  · have above := UInt32.le_iff_toNat_le.mp bounds.1
    exact absurd (Nat.le_trans above bound) (by decide)
  · have above := UInt32.le_iff_toNat_le.mp bounds.1
    exact absurd (Nat.le_trans above bound) (by decide)

/-- Digits belong to words. -/
theorem isWord_of_isDigit {character : Char} (digit : isDigit character) : isWord character := by
  unfold isDigit at digit
  unfold isWord
  split at digit
  · rename_i small
    rw [if_pos small, isAsciiWord, Char.isAlphanum, digit, Bool.or_true]
    rfl
  · rename_i large
    rw [if_neg large]
    simp only [digit, Bool.true_or]

/-- The letters, digits and the underscore of ASCII are among its characters. -/
theorem small_of_isAsciiWord {character : Char} (plain : isAsciiWord character) :
    character.toNat < 0x80 := by
  simp only [isAsciiWord, Char.isAlphanum, Bool.or_eq_true, decide_eq_true_eq] at plain
  rcases plain with (letter | digit) | rfl
  · exact small_of_isAlpha letter
  · simp only [Char.isDigit, Bool.and_eq_true, decide_eq_true_eq] at digit
    have above := UInt32.le_iff_toNat_le.mp digit.2
    exact Nat.lt_of_le_of_lt above (by decide)
  · decide

/-- The letters, digits and the underscore of ASCII belong to words. -/
theorem isWord_of_isAsciiWord {character : Char} (plain : isAsciiWord character) :
    isWord character := by
  rw [isWord, if_pos (small_of_isAsciiWord plain)]
  exact plain

/-- What a pattern lists from `a` to `z` or from `A` to `Z` are the letters of ASCII. -/
theorem isAlpha_of_listed {character : Char}
    (listed : (CharClass.range 'a' 'z').contains character ∨
      (CharClass.range 'A' 'Z').contains character) : character.isAlpha := by
  simp only [CharClass.contains, Bool.and_eq_true, decide_eq_true_eq] at listed
  simp only [Char.isAlpha, Char.isUpper, Char.isLower, Bool.or_eq_true, Bool.and_eq_true,
    decide_eq_true_eq]
  exact listed.symm

/-- What a pattern lists from `a` to `z` or from `A` to `Z` belongs to words. -/
theorem isWord_of_listed {character : Char}
    (listed : (CharClass.range 'a' 'z').contains character ∨
      (CharClass.range 'A' 'Z').contains character) : isWord character :=
  isWord_of_isAlpha (isAlpha_of_listed listed)

end Highlighter.Unicode

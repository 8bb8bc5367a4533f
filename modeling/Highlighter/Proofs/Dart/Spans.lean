import Highlighter.Proofs.Dart.Sparing
import Highlighter.Proofs.Grammar.Keywords
import Highlighter.Proofs.Unicode.Property

/-!
# Where the matches of keywords, numbers, calls and comments end

Each of these patterns has at most one preferred match from a place on, and what is before the
place and ahead of it says whether there is one and where it ends. `KeywordSpan`, `NumberSpan`,
`CallSpan` and `CommentSpan` say so of the text alone: what is ahead, and what is left behind the
match. So two texts can be compared without the matcher.
-/

namespace Highlighter.Dart

open Text (Cursor)
open Regex (Expr CharClass)
open Regex.Assertion (startsWithWord)

variable {text : List Char} {first last : Cursor text}

/-- The sets of digits and of word characters. -/
def isDigit : Char → Bool := (CharClass.having .digit).contains

/-- Digits, at least one. -/
def Digits (stretch : List Char) : Prop := stretch ≠ [] ∧ ∀ character ∈ stretch, isDigit character

/-- A stretch of word characters begins with a word. -/
theorem starts_of_words {stretch : List Char} (filled : stretch ≠ [])
    (word : ∀ character ∈ stretch, Unicode.isWord character) (rest : List Char) :
    startsWithWord (stretch ++ rest) := by
  obtain ⟨first, others, rfl⟩ := List.exists_cons_of_ne_nil filled
  exact word first List.mem_cons_self

/-- Behind a stretch of word characters there is a word before. -/
theorem ends_of_words {stretch : List Char} (filled : stretch ≠ [])
    (word : ∀ character ∈ stretch, Unicode.isWord character) (before : List Char) :
    startsWithWord (stretch.reverse ++ before) := by
  refine starts_of_words (by simpa using filled) (fun character listed => ?_) before
  exact word character (List.mem_reverse.mp listed)

/-- What begins with digits begins with a word. -/
theorem Digits.starts {stretch : List Char} (digits : Digits stretch) (rest : List Char) :
    startsWithWord (stretch ++ rest) :=
  starts_of_words digits.1 (fun _ listed => Unicode.isWord_of_isDigit (digits.2 _ listed)) rest

/-- Behind digits there is a word before. -/
theorem Digits.ends {stretch : List Char} (digits : Digits stretch) (before : List Char) :
    startsWithWord (stretch.reverse ++ before) :=
  ends_of_words digits.1 (fun _ listed => Unicode.isWord_of_isDigit (digits.2 _ listed)) before

/-! ### Keywords -/

/-- A keyword comes first in the text, and one of the signs that may follow a keyword is left. -/
def KeywordSpan (after rest : List Char) : Prop :=
  ∃ word ∈ words, ∃ spelling ∈ word.spellings, after = spelling ++ rest ∧
    rest.head?.any keywordFollowers.contains

/-- An asterisk can only be the last sign of a keyword. -/
theorem spelling_letters : ∀ word ∈ words, ∀ spelling ∈ word.spellings,
    ∀ character ∈ spelling.dropLast, character.isAlpha := by
  decide +kernel

/-- The keywords are made of letters and asterisks, and begin with a letter. -/
theorem words_spelled : Keyword.Spelled words isKeywordSign where
  filled := by decide
  begins word listed spelling spells := by
    have begins := (spelling_signs word listed spelling spells).2
    cases spelling with
    | nil => cases begins
    | cons letter others => exact Unicode.isWord_of_isAlpha begins
  made word listed spelling spells := (spelling_signs word listed spelling spells).1
  apart := by decide

/-- What a keyword is spelled with begins a word. -/
theorem KeywordSpan.starts {after rest : List Char} (span : KeywordSpan after rest) :
    startsWithWord after :=
  Keyword.Leads.starts words_spelled span

/-- A match of a keyword begins where no word is before it, and spans the keyword. -/
theorem keyword_of_match (member : last ∈ (keywordsExpr words).ends first) :
    startsWithWord first.before = false ∧ KeywordSpan first.after last.after :=
  Keyword.leads_of_match words_spelled member

/-- Where no word is before a keyword, the keyword is the preferred match. -/
theorem preferred_of_keyword (before : startsWithWord first.before = false)
    (span : KeywordSpan first.after last.after) :
    ((keywordsExpr words).ends first).head? = some last :=
  Keyword.preferred_of_leads words_spelled before span

/-! ### Numbers -/

/-- A number comes first in the text, and this is left. The digits behind the period belong to it
if no word goes on behind them. -/
inductive NumberSpan : List Char → List Char → Prop where
  | point {whole fraction rest : List Char} (digits : Digits whole) (further : Digits fraction)
      (ended : startsWithWord rest = false) :
      NumberSpan (whole ++ '.' :: (fraction ++ rest)) rest
  | whole {whole rest : List Char} (digits : Digits whole) (ended : startsWithWord rest = false)
      (alone : ∀ fraction behind, rest = '.' :: (fraction ++ behind) → Digits fraction →
        startsWithWord behind) :
      NumberSpan (whole ++ rest) rest

/-- No digit is ahead where no word is. -/
theorem digit_not_ahead {rest : List Char} (ended : startsWithWord rest = false) :
    rest.head?.any isDigit = false := by
  cases rest with
  | nil => rfl
  | cons next others =>
    have apart : Unicode.isWord next = false := ended
    cases digit : isDigit next with
    | false => exact digit
    | true =>
      rw [Unicode.isWord_of_isDigit digit] at apart
      cases apart

/-- There is one way in which a text begins with a number. -/
theorem NumberSpan.unique {after rest other : List Char} (span : NumberSpan after rest)
    (again : NumberSpan after other) : rest = other := by
  generalize same : after = copy at again
  have period (others : List Char) : ('.' :: others).head?.any isDigit = false := by
    have apart : isDigit '.' = false := by decide
    exact apart
  cases span with
  | point digits further ended =>
    cases again with
    | point digits' further' ended' =>
      obtain ⟨_, behind⟩ := Regex.stretch_unique isDigit same digits.2 digits'.2 (period _) (period _)
      exact (Regex.stretch_unique isDigit (List.cons.inj behind).2 further.2 further'.2
        (digit_not_ahead ended) (digit_not_ahead ended')).2
    | whole digits' ended' alone =>
      obtain ⟨_, behind⟩ := Regex.stretch_unique isDigit same digits.2 digits'.2 (period _)
        (digit_not_ahead ended')
      rw [alone _ _ behind.symm further] at ended
      cases ended
  | whole digits ended alone =>
    cases again with
    | point digits' further' ended' =>
      obtain ⟨_, behind⟩ := Regex.stretch_unique isDigit same digits.2 digits'.2 (digit_not_ahead ended)
        (period _)
      rw [alone _ _ behind further'] at ended'
      cases ended'
    | whole digits' ended' alone' =>
      exact (Regex.stretch_unique isDigit same digits.2 digits'.2 (digit_not_ahead ended)
        (digit_not_ahead ended')).2

/-- The digits behind a period. -/
def fraction : Expr := .capture 1 (.sequences [sign '.', digits])

/-- Behind a word there is a boundary where no word goes on. -/
theorem boundary_behind (before : startsWithWord last.before) :
    (Expr.assertion .wordBoundary).ends last = if startsWithWord last.after then [] else [last] := by
  simp only [Expr.ends, Regex.Assertion.holds, before]
  cases startsWithWord last.after <;> rfl

/-- A match of the digits behind a period. -/
theorem mem_fraction (member : last ∈ fraction.ends first) :
    ∃ stretch, Digits stretch ∧ first.after = '.' :: (stretch ++ last.after) := by
  obtain ⟨middle, period, others⟩ := Expr.mem_sequences_cons.mp member
  obtain ⟨stretch, filled, within, ahead⟩ := Expr.stretch_of_some others
  exact ⟨stretch, ⟨filled, within⟩, by rw [Expr.after_of_mem_literal period, ahead]⟩

/-- Digits behind a period are matched. -/
theorem exists_fraction {stretch rest : List Char} (digits : Digits stretch)
    (ahead : first.after = '.' :: (stretch ++ rest)) :
    ∃ last, last ∈ fraction.ends first ∧ last.after = rest := by
  obtain ⟨middle, period, same⟩ :=
    CharClass.mem_ends_of_after ahead (CharClass.contains_single.mpr rfl)
  obtain ⟨last, member, behind⟩ := Expr.mem_some digits.1 digits.2 same
  exact ⟨last, Expr.mem_sequences_cons.mpr ⟨middle, period, member⟩, behind⟩

/-- The preferred match of a number begins where no word is before it, and spans the number. -/
theorem number_of_preferred (preferred : (numbers.ends first).head? = some last) :
    startsWithWord first.before = false ∧ NumberSpan first.after last.after := by
  obtain ⟨begun, boundary, others⟩ := Expr.exists_of_head_sequences preferred
  obtain ⟨rfl, holds⟩ := Expr.mem_assertion boundary
  obtain ⟨middle, member, others⟩ := Expr.exists_of_head_sequences others
  obtain ⟨whole, filled, within, ahead⟩ := Expr.stretch_of_some member
  have digits : Digits whole := ⟨filled, within⟩
  have starts : startsWithWord begun.after := by
    rw [ahead]
    exact digits.starts _
  constructor
  · simpa [Regex.Assertion.holds, starts] using holds
  · have split : (Expr.sequences [optional fraction, .assertion .wordBoundary]).ends middle =
        (fraction.ends middle).flatMap (Expr.assertion .wordBoundary).ends ++
          (Expr.assertion .wordBoundary).ends middle := by
      change ((optional fraction).ends middle).flatMap _ = _
      rw [optional, Expr.optional_ends, List.flatMap_append, List.flatMap_singleton]
      rfl
    change ((Expr.sequences [optional fraction, .assertion .wordBoundary]).ends middle).head? = _
      at others
    have before : startsWithWord middle.before := by
      rw [Cursor.before_of_after ahead]
      exact digits.ends _
    rw [split, List.head?_append, boundary_behind before, Option.or_eq_some_iff] at others
    rcases others with further | ⟨missing, alone⟩
    · obtain ⟨reached, point, ended⟩ := List.mem_flatMap.mp (List.mem_of_mem_head? further)
      obtain ⟨stretch, more, behind⟩ := mem_fraction point
      have passed : middle.after = ('.' :: stretch) ++ reached.after := behind
      have word : startsWithWord reached.before := by
        rw [Cursor.before_of_after passed, List.reverse_cons, List.append_assoc]
        exact more.ends _
      rw [boundary_behind word] at ended
      split at ended
      · cases ended
      · rename_i stopped
        obtain rfl := List.mem_singleton.mp ended
        rw [ahead, behind]
        exact .point digits more (by simpa using stopped)
    · split at alone
      · cases alone
      · rename_i stopped
        obtain rfl := Option.some.inj alone
        rw [ahead]
        refine .whole digits (by simpa using stopped) fun stretch behind dotted more => ?_
        obtain ⟨reached, point, same⟩ := exists_fraction more dotted
        have passed : middle.after = ('.' :: stretch) ++ reached.after := by rw [dotted, same]; rfl
        have word : startsWithWord reached.before := by
          rw [Cursor.before_of_after passed, List.reverse_cons, List.append_assoc]
          exact more.ends _
        have none := List.flatMap_eq_nil_iff.mp (List.head?_eq_none_iff.mp missing) reached point
        rw [boundary_behind word, same] at none
        split at none
        · assumption
        · cases none

/-- Where no word is before a number, the number is the preferred match.

Proof: the number is one of the matches, so there is a preferred one, and it spans the same. -/
theorem preferred_of_number (before : startsWithWord first.before = false)
    (span : NumberSpan first.after last.after) : (numbers.ends first).head? = some last := by
  have matched : last ∈ numbers.ends first := by
    generalize ahead : first.after = after at span
    generalize behind : last.after = rest at span
    have boundary {stretch others : List Char} (digits : Digits stretch)
        (begins : first.after = stretch ++ others) :
        first ∈ (Expr.assertion .wordBoundary).ends first := by
      have starts : startsWithWord first.after := by
        rw [begins]
        exact digits.starts _
      simp [Expr.ends, Regex.Assertion.holds, before, starts]
    have ended (former : List Char) {stretch : List Char} (digits : Digits stretch)
        (passed : first.after = former ++ stretch ++ last.after)
        (stops : startsWithWord last.after = false) :
        last ∈ (Expr.assertion .wordBoundary).ends last := by
      have word : startsWithWord last.before := by
        rw [Cursor.before_of_after passed, List.reverse_append, List.append_assoc]
        exact digits.ends _
      rw [boundary_behind word, stops]
      exact List.mem_singleton_self last
    have sequence {middle : Cursor text} (begun : first ∈ (Expr.assertion .wordBoundary).ends first)
        (whole : middle ∈ digits.ends first) (point : last ∈ fraction.ends middle ∨ last = middle)
        (stops : last ∈ (Expr.assertion .wordBoundary).ends last) : last ∈ numbers.ends first := by
      refine Expr.mem_sequences_cons.mpr ⟨first, begun, Expr.mem_sequences_cons.mpr
        ⟨middle, whole, Expr.mem_sequences_cons.mpr ⟨last, ?_, stops⟩⟩⟩
      change last ∈ (optional fraction).ends middle
      rw [optional, Expr.optional_ends, List.mem_append, List.mem_singleton]
      exact point
    cases span with
    | @point whole tenths _ digits further stops =>
      obtain ⟨middle, member, rest⟩ := Expr.mem_some digits.1 digits.2 ahead
      obtain ⟨reached, point, same⟩ := exists_fraction further rest
      obtain rfl : reached = last := Cursor.eq_of_after (same.trans behind.symm)
      refine sequence (boundary digits ahead) member (.inl point)
        (ended (whole ++ ['.']) further ?_ (behind ▸ stops))
      rw [ahead, behind]
      simp only [List.append_assoc, List.cons_append, List.nil_append]
    | @whole whole _ digits stops alone =>
      obtain ⟨middle, member, same⟩ := Expr.mem_some digits.1 digits.2 ahead
      obtain rfl : middle = last := Cursor.eq_of_after (same.trans behind.symm)
      refine sequence (boundary digits ahead) member (.inr rfl)
        (ended [] digits ?_ (behind ▸ stops))
      rw [ahead, behind, List.nil_append]
  obtain ⟨actual, preferred⟩ :=
    Option.isSome_iff_exists.mp (List.isSome_head?.mpr (List.ne_nil_of_mem matched))
  rw [preferred, Cursor.eq_of_after ((number_of_preferred preferred).2.unique span)]

/-- A number begins with digits, and behind them no word goes on. -/
theorem NumberSpan.digits {after rest : List Char} (span : NumberSpan after rest) :
    ∃ whole others, Digits whole ∧ startsWithWord others = false ∧ after = whole ++ others := by
  have apart : Unicode.isWord '.' = false := by decide
  cases span with
  | @point whole fraction rest digits further ended =>
    exact ⟨whole, '.' :: (fraction ++ rest), digits, apart, rfl⟩
  | @whole whole rest digits ended alone => exact ⟨whole, rest, digits, ended, rfl⟩

/-- Where digits are ahead behind which no word goes on, and no word is before them, there is a
number. -/
theorem exists_number {whole rest : List Char} (before : startsWithWord first.before = false)
    (digits : Digits whole) (ended : startsWithWord rest = false)
    (ahead : first.after = whole ++ rest) : ∃ last, (numbers.ends first).head? = some last := by
  by_cases point : ∃ fraction behind, rest = '.' :: (fraction ++ behind) ∧ Digits fraction ∧
      startsWithWord behind = false
  · obtain ⟨fraction, behind, rfl, further, stops⟩ := point
    have split : first.after = (whole ++ '.' :: fraction) ++ behind := by
      rw [ahead, List.append_assoc, List.cons_append]
    obtain ⟨last, same, _⟩ := Cursor.exists_behind split
    refine ⟨last, preferred_of_number before ?_⟩
    rw [ahead, same]
    exact .point digits further stops
  · obtain ⟨last, same, _⟩ := Cursor.exists_behind ahead
    refine ⟨last, preferred_of_number before ?_⟩
    rw [ahead, same]
    refine .whole digits ended fun fraction behind dotted further => ?_
    cases stops : startsWithWord behind with
    | true => rfl
    | false => exact absurd ⟨fraction, behind, dotted, further, stops⟩ point

/-- A number is one behind which something else comes, if words go on there and behind further
digits as they did. -/
theorem NumberSpan.moved {stretch rest other : List Char} (span : NumberSpan (stretch ++ rest) rest)
    (ended : startsWithWord other = startsWithWord rest)
    (alike : ∀ fraction behind, other = '.' :: (fraction ++ behind) → Digits fraction →
      ∃ more, rest = '.' :: (fraction ++ more) ∧ startsWithWord behind = startsWithWord more) :
    NumberSpan (stretch ++ other) other := by
  generalize same : stretch ++ rest = after at span
  cases span with
  | @point whole fraction _ digits further stops =>
    have split : stretch ++ rest = (whole ++ '.' :: fraction) ++ rest := by
      rw [same, List.append_assoc, List.cons_append]
    rw [List.append_cancel_right split, List.append_assoc, List.cons_append]
    exact .point digits further (ended.trans stops)
  | whole digits stops alone =>
    rw [List.append_cancel_right same]
    refine .whole digits (ended.trans stops) fun fraction behind dotted further => ?_
    obtain ⟨more, split, goesOn⟩ := alike fraction behind dotted further
    rw [goesOn]
    exact alone fraction more split further

/-! ### Calls -/

/-- A name and blanks come first in the text, then a parenthesis, which is left. -/
inductive CallSpan : List Char → List Char → Prop where
  | call {first : Char} {name blanks rest : List Char} (begins : nameBegin.contains first)
      (word : ∀ character ∈ name, Unicode.isWord character)
      (blank : ∀ character ∈ blanks, character = ' ') :
      CallSpan (first :: (name ++ (blanks ++ '(' :: rest))) ('(' :: rest)

/-- Blanks and what follows a name are not of words. -/
theorem blanks_apart {blanks : List Char} (blank : ∀ character ∈ blanks, character = ' ')
    (rest : List Char) : startsWithWord (blanks ++ '(' :: rest) = false := by
  have apart : Unicode.isWord ' ' = false ∧ Unicode.isWord '(' = false := by decide
  cases blanks with
  | nil => exact apart.2
  | cons first others =>
    obtain rfl := blank first List.mem_cons_self
    exact apart.1

/-- There is one way in which a text begins with a call. -/
theorem CallSpan.unique {after rest other : List Char} (span : CallSpan after rest)
    (again : CallSpan after other) : rest = other := by
  generalize same : after = copy at again
  cases span with
  | @call first name blanks rest begins word blank =>
    cases again with
    | @call first' name' blanks' rest' begins' word' blank' =>
      obtain ⟨_, named⟩ := List.cons.inj same
      obtain ⟨_, behind⟩ := Regex.stretch_unique Unicode.isWord named word word'
        (blanks_apart blank rest) (blanks_apart blank' rest')
      refine (Regex.stretch_unique (fun character => character = ' ') behind ?_ ?_ ?_ ?_).2
      · exact fun character listed => decide_eq_true (blank character listed)
      · exact fun character listed => decide_eq_true (blank' character listed)
      · exact (rfl : decide ('(' = ' ') = false)
      · exact (rfl : decide ('(' = ' ') = false)

/-- The preferred match of a call begins where no word is before it, and spans the call. -/
theorem call_of_match (member : last ∈ functions.ends first) :
    startsWithWord first.before = false ∧ CallSpan first.after last.after := by
  obtain ⟨begun, boundary, others⟩ := Expr.mem_sequences_cons.mp member
  obtain ⟨rfl, holds⟩ := Expr.mem_assertion boundary
  obtain ⟨second, initial, others⟩ := Expr.mem_sequences_cons.mp others
  obtain ⟨character, begins, contained⟩ := CharClass.after_of_mem_ends initial
  obtain ⟨third, many, others⟩ := Expr.mem_sequences_cons.mp others
  obtain ⟨name, named, word⟩ := Expr.stretch_within
    (fun character => (CharClass.having .word).contains character) many rfl fun _ inside => inside
  obtain ⟨fourth, bounded, spaced⟩ := Expr.mem_sequences_cons.mp others
  obtain ⟨rfl, _⟩ := Expr.mem_assertion bounded
  obtain ⟨fifth, blanks, look⟩ := Expr.mem_sequences_cons.mp spaced
  obtain ⟨blank, passed, only⟩ := Expr.stretch_within (fun character => character = ' ') blanks rfl
    fun _ inside => CharClass.contains_single.mp inside
  obtain ⟨rfl, reached, parenthesis⟩ := Expr.mem_look_ahead look
  have follows := Expr.after_of_mem_literal parenthesis
  constructor
  · have starts : startsWithWord begun.after := by
      rw [begins]
      exact isWord_of_name_begin contained
    simpa [Regex.Assertion.holds, starts] using holds
  · rw [begins, named, passed, follows]
    exact .call contained word only

/-- Where no word is before a call, the call is the preferred match. -/
theorem preferred_of_call (before : startsWithWord first.before = false)
    (span : CallSpan first.after last.after) : (functions.ends first).head? = some last := by
  have matched : last ∈ functions.ends first := by
    generalize ahead : first.after = after at span
    generalize behind : last.after = rest at span
    cases span with
    | @call initial name blanks rest begins word blank =>
      have starts : startsWithWord first.after := by
        rw [ahead]
        exact isWord_of_name_begin begins
      obtain ⟨second, opened, named⟩ := CharClass.mem_ends_of_after ahead begins
      obtain ⟨third, many, blanked⟩ := Expr.mem_many (.having .word) true word named
      obtain ⟨fourth, spaces, follows⟩ := Expr.mem_many (.single ' ') true
        (fun character listed => CharClass.contains_single.mpr (blank character listed)) blanked
      obtain rfl : fourth = last := Cursor.eq_of_after (follows.trans behind.symm)
      obtain ⟨further, parenthesis, _⟩ :=
        CharClass.mem_ends_of_after follows (CharClass.contains_single.mpr rfl)
      have passed : first.after = (initial :: name) ++ third.after := by
        rw [ahead, blanked, List.cons_append]
      have ends : startsWithWord third.before := by
        rw [Cursor.before_of_after passed]
        refine ends_of_words (List.cons_ne_nil _ _) (fun character listed => ?_) first.before
        rcases List.mem_cons.mp listed with rfl | inside
        · exact isWord_of_name_begin begins
        · exact word character inside
      refine Expr.mem_sequences_cons.mpr ⟨first, ?_, Expr.mem_sequences_cons.mpr ⟨second, opened,
        Expr.mem_sequences_cons.mpr ⟨third, many, Expr.mem_sequences_cons.mpr ⟨third, ?_,
          Expr.mem_sequences_cons.mpr ⟨fourth, spaces, ?_⟩⟩⟩⟩⟩
      · simp [Expr.ends, Regex.Assertion.holds, before, starts]
      · rw [boundary_behind ends, blanked, blanks_apart blank]
        exact List.mem_singleton_self third
      · have found : ((sign '(').ends fourth).isEmpty = false :=
          List.isEmpty_eq_false_iff_exists_mem.mpr ⟨further, parenthesis⟩
        change fourth ∈ if ((sign '(').ends fourth).isEmpty = false then [fourth] else []
        rw [if_pos found]
        exact List.mem_singleton_self fourth
  obtain ⟨actual, preferred⟩ :=
    Option.isSome_iff_exists.mp (List.isSome_head?.mpr (List.ne_nil_of_mem matched))
  have same := (call_of_match (List.mem_of_mem_head? preferred)).2.unique span
  rw [preferred, Cursor.eq_of_after same]

/-! ### Comments -/

/-- A comment comes first in the text, and this is left: what is behind the line, or behind the
first signs that end a comment of several lines. -/
inductive CommentSpan : List Char → List Char → Prop where
  | line {stretch rest : List Char} (within : '\n' ∉ stretch)
      (ended : rest.head?.all (· = '\n')) : CommentSpan ('/' :: '/' :: (stretch ++ rest)) rest
  | long {stretch rest : List Char}
      (first : ∀ former latter, stretch ++ '*' :: '/' :: rest = former ++ '*' :: '/' :: latter →
        stretch.length ≤ former.length) :
      CommentSpan ('/' :: '*' :: (stretch ++ '*' :: '/' :: rest)) rest

/-- There is one way in which a text begins with a comment. -/
theorem CommentSpan.unique {after rest other : List Char} (span : CommentSpan after rest)
    (again : CommentSpan after other) : rest = other := by
  generalize same : after = copy at again
  cases span with
  | @line stretch _ within ended =>
    cases again with
    | @line stretch' _ within' ended' =>
      have stops {rest : List Char} (ended : rest.head?.all (· = '\n')) :
          rest.head?.any (· ≠ '\n') = false := by
        cases rest with
        | nil => rfl
        | cons next others => simpa using ended
      refine (Regex.stretch_unique (fun character => character ≠ '\n')
        (List.cons.inj (List.cons.inj same).2).2 ?_ ?_ (stops ended) (stops ended')).2
      · exact fun character listed => decide_eq_true fun same => within (same ▸ listed)
      · exact fun character listed => decide_eq_true fun same => within' (same ▸ listed)
    | long first' => cases (List.cons.inj (List.cons.inj same).2).1
  | @long stretch _ first =>
    cases again with
    | line within' ended' => cases (List.cons.inj (List.cons.inj same).2).1
    | @long stretch' _ first' =>
      have equal := (List.cons.inj (List.cons.inj same).2).2
      have lengths : stretch.length = stretch'.length :=
        Nat.le_antisymm (first _ _ equal) (first' _ _ equal.symm)
      have ended := (List.append_inj equal lengths).2
      exact (List.cons.inj (List.cons.inj ended).2).2

/-- The signs that end a comment of several lines. -/
def commentEnd : Expr := .sequences [sign '*', sign '/']

/-- The end of a comment is ahead where it matches. -/
theorem mem_comment_end (member : last ∈ commentEnd.ends first) :
    first.after = '*' :: '/' :: last.after := by
  obtain ⟨middle, asterisk, slash⟩ := Expr.mem_sequences_cons.mp member
  have slash : last ∈ (sign '/').ends middle := slash
  rw [Expr.after_of_mem_literal asterisk, Expr.after_of_mem_literal slash]

/-- The end of a comment matches where it is ahead. -/
theorem head_comment_end {rest : List Char} (ahead : first.after = '*' :: '/' :: rest) :
    ∃ last, (commentEnd.ends first).head? = some last ∧ last.after = rest := by
  obtain ⟨middle, asterisk, same⟩ :=
    CharClass.mem_ends_of_after ahead (CharClass.contains_single.mpr rfl)
  obtain ⟨last, slash, behind⟩ :=
    CharClass.mem_ends_of_after same (CharClass.contains_single.mpr rfl)
  have member : last ∈ commentEnd.ends first :=
    Expr.mem_sequences_cons.mpr ⟨middle, asterisk, slash⟩
  obtain ⟨actual, preferred⟩ :=
    Option.isSome_iff_exists.mp (List.isSome_head?.mpr (List.ne_nil_of_mem member))
  refine ⟨actual, preferred, ?_⟩
  have again := mem_comment_end (List.mem_of_mem_head? preferred)
  rw [ahead] at again
  exact ((List.cons.inj (List.cons.inj again).2).2).symm

/-- The preferred match of a comment spans the comment. -/
theorem comment_of_preferred (preferred : (comments.ends first).head? = some last) :
    CommentSpan first.after last.after := by
  obtain ⟨option, listed, matched⟩ := Expr.exists_of_head_alternatives (by decide) preferred
  rcases List.mem_pair.mp listed with rfl | rfl
  · obtain ⟨middle, begin, others⟩ := Expr.exists_of_head_sequences matched
    obtain ⟨begun, second, many⟩ := Expr.exists_of_head_sequences others
    obtain ⟨stretch, ahead, within⟩ := Expr.stretch_within (fun character => character ≠ '\n')
      (List.mem_of_mem_head? many) (by decide) fun character contained => by
        rintro rfl
        exact absurd contained (by decide)
    rw [Expr.after_of_mem_literal begin, Expr.after_of_mem_literal second, ahead]
    refine .line (fun listed => within _ listed rfl) ?_
    cases behind : last.after with
    | nil => rfl
    | cons next rest =>
      have stops : (!(false || (CharClass.single '\n').contains next)) = false :=
        Expr.head_many_stops many behind
      rw [Bool.false_or, Bool.not_eq_false'] at stops
      exact decide_eq_true (CharClass.contains_single.mp stops)
  · obtain ⟨middle, begin, others⟩ := Expr.exists_of_head_sequences matched
    obtain ⟨begun, second, others⟩ := Expr.exists_of_head_sequences others
    have split : ((Expr.sequences [.repetition (.one (some .anything)) 0 none false, sign '*',
        sign '/']).ends begun).head? =
          (Regex.leftmost (fun here => (commentEnd.ends here).head?) begun).map Prod.snd :=
      Expr.lazy_head commentEnd.ends begun
    rw [split] at others
    obtain ⟨⟨place, ended⟩, found, rfl⟩ := Option.map_eq_some_iff.mp others
    obtain ⟨behind, chosen, earlier⟩ := Regex.leftmost_some found
    have ahead := mem_comment_end (List.mem_of_mem_head? chosen)
    have whole : begun.after = begun.slice place ++ '*' :: '/' :: ended.after := by
      rw [← ahead, Cursor.slice_append_after behind]
    rw [Expr.after_of_mem_literal begin, Expr.after_of_mem_literal second, whole]
    refine .long fun former latter same => ?_
    by_contra short
    rw [← whole] at same
    obtain ⟨other, ends, number⟩ := Cursor.exists_behind same
    obtain ⟨_, found, _⟩ := head_comment_end ends
    have length := Cursor.length_slice behind
    rw [earlier other (by omega) (by omega)] at found
    cases found

/-- Where the signs that begin a comment are ahead, and behind them the signs that end one unless it
ends with the line, there is a comment. -/
theorem exists_comment (begins : (∃ rest, first.after = '/' :: '/' :: rest) ∨
    ∃ stretch rest, first.after = '/' :: '*' :: (stretch ++ '*' :: '/' :: rest)) :
    ∃ last, (comments.ends first).head? = some last := by
  have filled : comments.ends first ≠ [] := by
    rcases begins with ⟨rest, ahead⟩ | ⟨stretch, rest, ahead⟩
    · obtain ⟨begun, slash, same⟩ :=
        CharClass.mem_ends_of_after ahead (CharClass.contains_single.mpr rfl)
      obtain ⟨second, again, further⟩ :=
        CharClass.mem_ends_of_after same (CharClass.contains_single.mpr rfl)
      obtain ⟨reached, many, _⟩ :=
        Expr.mem_many (.complement (union [.single '\n'])) true
          (fun _ listed => absurd listed List.not_mem_nil) further
      refine List.ne_nil_of_mem (a := reached) (List.mem_append_left _ ?_)
      exact Expr.mem_sequences_cons.mpr ⟨begun, slash,
        Expr.mem_sequences_cons.mpr ⟨second, again, many⟩⟩
    · obtain ⟨begun, slash, same⟩ :=
        CharClass.mem_ends_of_after ahead (CharClass.contains_single.mpr rfl)
      obtain ⟨second, asterisk, further⟩ :=
        CharClass.mem_ends_of_after same (CharClass.contains_single.mpr rfl)
      obtain ⟨other, ends, number⟩ := Cursor.exists_behind further
      obtain ⟨_, closed, _⟩ := head_comment_end ends
      obtain ⟨hit, found⟩ : ∃ hit,
          Regex.leftmost (fun here => (commentEnd.ends here).head?) second = some hit := by
        refine Option.ne_none_iff_exists'.mp fun missing => ?_
        rw [Regex.leftmost_none missing (by omega : second.index ≤ other.index)] at closed
        cases closed
      have many := Expr.lazy_head commentEnd.ends second
      rw [found] at many
      refine List.ne_nil_of_mem (a := hit.2) (List.mem_append_right _ ?_)
      exact Expr.mem_sequences_cons.mpr ⟨begun, slash,
        Expr.mem_sequences_cons.mpr ⟨second, asterisk, List.mem_of_mem_head? many⟩⟩
  exact Option.isSome_iff_exists.mp (List.isSome_head?.mpr filled)

/-- A comment is the preferred match. -/
theorem preferred_of_comment (span : CommentSpan first.after last.after) :
    (comments.ends first).head? = some last := by
  obtain ⟨actual, preferred⟩ : ∃ last, (comments.ends first).head? = some last := by
    generalize ahead : first.after = after at span
    cases span with
    | line within ended => exact exists_comment (.inl ⟨_, ahead⟩)
    | long earliest => exact exists_comment (.inr ⟨_, _, ahead⟩)
  rw [preferred, Cursor.eq_of_after ((comment_of_preferred preferred).unique span)]

end Highlighter.Dart

import Highlighter.Proofs.Dart.Spans
import Highlighter.Proofs.Markup.Seaming

/-!
# What stands at the ends of matches

Markup is put where matches begin and end. For each pattern of Dart, this module tells the
characters before and behind these two places: so much can be said of them, whatever the text.
It follows that hardly any markup comes between two characters that a later match needs side by
side: two characters of words, two of a number, or the two signs that begin or end a comment.
-/

namespace Highlighter.Dart

open Text (Cursor)
open Regex (Expr CharClass)
open Regex.Assertion (startsWithWord)
open Markup (Edged Parted)

variable {text : List Char} {first last : Cursor text}

/-- Digits and the period, which numbers are made of. -/
def isNumeric (character : Char) : Bool := isDigit character || character = '.'

/-- The signs that comments begin and end with. -/
def isCommentSign (character : Char) : Bool := character = '/' || character = '*'

/-- The quotes that literals begin and end with. -/
def isQuote (character : Char) : Bool := character = '\'' || character = '"'

/-- A keyword begins with a letter and no word is before it. Before its end there is a letter or an
asterisk, and one of few signs is behind. -/
theorem keyword_edges (preferred : ((keywordsExpr words).ends first).head? = some last) :
    startsWithWord first.before = false ∧ first.after.head?.any Char.isAlpha ∧
      last.before.head?.any isKeywordSign ∧ last.after.head?.any keywordFollowers.contains := by
  obtain ⟨before, word, listed, spelling, spells, ahead, follows⟩ :=
    keyword_of_match (List.mem_of_mem_head? preferred)
  obtain ⟨signs, begins⟩ := spelling_signs word listed spelling spells
  have filled : spelling ≠ [] := by
    rintro rfl
    cases begins
  refine ⟨before, ?_, ?_, follows⟩
  · rw [ahead, List.head?_append_of_ne_nil _ filled]
    exact begins
  · rw [Cursor.last_of_stretch filled ahead, List.getLast?_eq_some_getLast filled]
    exact signs _ (List.getLast_mem filled)

/-- A literal begins and ends with a quote. -/
theorem literal_edges (preferred : (literals.ends first).head? = some last) :
    first.after.head?.any isQuote ∧ last.before.head?.any isQuote := by
  have quotes {quote : Char} {group : Nat} (either : isQuote quote)
      (matched : last ∈ (quoted quote group).ends first) :
      first.after.head?.any isQuote ∧ last.before.head?.any isQuote := by
    obtain ⟨stretch, ahead, _⟩ := quoted_match matched
    have whole : first.after = (quote :: (stretch ++ [quote])) ++ last.after := by
      rw [ahead, List.cons_append, List.append_assoc, List.singleton_append]
    constructor
    · rw [ahead]
      exact either
    · rw [Cursor.last_of_stretch (List.cons_ne_nil _ _) whole, ← List.cons_append, List.getLast?_concat]
      exact either
  obtain ⟨option, listed, matched⟩ :=
    Expr.exists_of_mem_alternatives (by decide) (List.mem_of_mem_head? preferred)
  rcases List.mem_pair.mp listed with rfl | rfl
  · exact quotes (by decide) matched
  · exact quotes (by decide) matched

/-- A call begins with what a name begins with, no word is before it, and a parenthesis is behind
it. -/
theorem call_edges (preferred : (functions.ends first).head? = some last) :
    startsWithWord first.before = false ∧ first.after.head?.any nameBegin.contains ∧
      last.after.head? = some '(' := by
  obtain ⟨before, span⟩ := call_of_match (List.mem_of_mem_head? preferred)
  refine ⟨before, ?_⟩
  generalize first.after = after at span
  generalize last.after = rest at span
  cases span with
  | call begins word blank => exact ⟨begins, rfl⟩

/-- A number begins and ends with a digit, and no word goes on before it or behind it. -/
theorem number_edges (preferred : (numbers.ends first).head? = some last) :
    startsWithWord first.before = false ∧ first.after.head?.any isDigit ∧
      last.before.head?.any isDigit ∧ startsWithWord last.after = false := by
  obtain ⟨before, span⟩ := number_of_preferred preferred
  have starts {stretch rest : List Char} (digits : Digits stretch) :
      (stretch ++ rest).head?.any isDigit := by
    obtain ⟨digit, others, rfl⟩ := List.exists_cons_of_ne_nil digits.1
    exact digits.2 digit List.mem_cons_self
  have ends (former : List Char) {stretch : List Char} (digits : Digits stretch)
      (passed : first.after = former ++ stretch ++ last.after) : last.before.head?.any isDigit := by
    rw [Cursor.before_of_after passed, List.reverse_append, List.append_assoc]
    refine starts ⟨?_, fun character listed => digits.2 character (by simpa using listed)⟩
    simpa using digits.1
  refine ⟨before, ?_⟩
  generalize ahead : first.after = after at span
  generalize behind : last.after = rest at span
  cases span with
  | @point whole fraction _ digits further ended =>
    refine ⟨starts digits, ends (whole ++ ['.']) further ?_, ended⟩
    rw [ahead, behind]
    simp
  | @whole whole _ digits ended alone =>
    refine ⟨starts digits, ends [] digits ?_, ended⟩
    rw [ahead, behind, List.nil_append]

/-- A comment begins with a slash. It ends with one, or the line ends behind it. -/
theorem comment_edges (preferred : (comments.ends first).head? = some last) :
    first.after.head? = some '/' ∧
      (last.before.head? = some '/' ∨ last.after.head?.all (· = '\n')) := by
  have span := comment_of_preferred preferred
  generalize ahead : first.after = after at span
  generalize behind : last.after = rest at span
  cases span with
  | line within ended => exact ⟨rfl, .inr ended⟩
  | @long stretch _ earliest =>
    refine ⟨rfl, .inl ?_⟩
    have whole : first.after = (('/' :: '*' :: (stretch ++ ['*'])) ++ ['/']) ++ last.after := by
      rw [ahead, behind]
      simp
    rw [Cursor.last_of_stretch (by simp) whole, List.getLast?_concat]

/-- The letters of the names of types and classes. -/
def letters : CharClass := union [upper, lower]

/-- The characters that can end a type: letters, and what closes arguments. -/
def isTypeEnd (character : Char) : Bool :=
  letters.contains character || character = '>' || character = ')'

/-- The name of a class consists of letters. -/
theorem class_name_letters (member : last ∈ (Expr.sequences className).ends first) :
    ∃ initial others, first.after = initial :: (others ++ last.after) ∧
      ∀ character ∈ initial :: others, letters.contains character := by
  refine Expr.filled_stretch (fun character => letters.contains character) member rfl ?_
    (by decide)
  refine ⟨fun character contained => ?_, fun _ contained => contained⟩
  simp only [Option.getD_some, union, List.foldl_cons, List.foldl_nil, CharClass.contains,
    Bool.false_or, letters] at contained ⊢
  rw [contained, Bool.true_or]

/-- A type argument or the arguments behind a name end with what closes them. -/
theorem arguments_end {opening closing : Char} {inner : Expr}
    (member : last ∈ (Expr.sequences [sign opening, inner, sign closing]).ends first) :
    last.before.head? = some closing := by
  obtain ⟨_, _, others⟩ := Expr.mem_sequences_cons.mp member
  obtain ⟨middle, _, closes⟩ := Expr.mem_sequences_cons.mp others
  have ahead : middle.after = [closing] ++ last.after := Expr.after_of_mem_literal closes
  exact Cursor.last_of_stretch (List.cons_ne_nil _ _) ahead

/-- A type begins with a letter and ends with one or behind its arguments, and at neither end words
go on. -/
theorem class_edges (preferred : (classes.ends first).head? = some last) :
    startsWithWord first.before = false ∧ first.after.head?.any letters.contains ∧
      last.before.head?.any isTypeEnd ∧
      (startsWithWord last.before = false ∨ startsWithWord last.after = false) := by
  have member := List.mem_of_mem_head? preferred
  obtain ⟨begins, ends⟩ : first.after.head?.any letters.contains ∧
      last.before.head?.any isTypeEnd := by
    rcases classes_match member with
      ⟨name, listed, ahead, _⟩ | ⟨named, argued, begin, typed, called⟩
    · have spelled : ∀ name ∈ typeNames, name.toList ≠ [] ∧
          name.toList.head?.any letters.contains ∧ name.toList.getLast?.any isTypeEnd := by
        decide
      obtain ⟨filled, first, last⟩ := spelled name listed
      refine ⟨?_, ?_⟩
      · rw [ahead, List.head?_append_of_ne_nil _ filled]
        exact first
      · rw [Cursor.last_of_stretch filled ahead]
        exact last
    · obtain ⟨initial, others, ahead, contained⟩ := class_name_letters begin
      refine ⟨?_, ?_⟩
      · rw [ahead]
        exact contained initial List.mem_cons_self
      · rcases Expr.mem_optional called with rfl | arguments
        · rcases Expr.mem_optional typed with rfl | argument
          · have whole : first.after = (initial :: others) ++ last.after := ahead
            rw [Cursor.last_of_stretch (List.cons_ne_nil _ _) whole,
              List.getLast?_eq_some_getLast (List.cons_ne_nil _ _)]
            have letter := contained _ (List.getLast_mem (List.cons_ne_nil initial others))
            simp only [Option.any_some, isTypeEnd, letter, Bool.true_or]
          · rw [arguments_end argument]
            decide
        · rw [arguments_end arguments]
          decide
  obtain ⟨begun, boundary, others⟩ := Expr.mem_sequences_cons.mp member
  obtain ⟨rfl, holds⟩ := Expr.mem_assertion boundary
  obtain ⟨ended, _, stops⟩ := Expr.mem_sequences_cons.mp others
  obtain ⟨rfl, closes⟩ := Expr.mem_assertion stops
  have starts : startsWithWord begun.after := by
    cases next : begun.after with
    | nil =>
      rw [next] at begins
      cases begins
    | cons character others =>
      rw [next] at begins
      refine Unicode.isWord_of_listed ?_
      simp only [Option.any_some, List.head?_cons, letters, union, List.foldl_cons, List.foldl_nil,
        CharClass.contains, Bool.false_or, Bool.or_eq_true] at begins
      exact begins.symm
  refine ⟨?_, begins, ends, ?_⟩
  · simpa [Regex.Assertion.holds, starts] using holds
  · have differs : (startsWithWord last.before != startsWithWord last.after) = true := closes
    cases before : startsWithWord last.before with
    | false => exact .inl rfl
    | true =>
      rw [before] at differs
      exact .inr (by simpa using differs)

/-! ### Kinds of characters that no end of a match parts -/

/-- A character with a property is not of a kind that no character with the property is of. -/
theorem not_of_kind {asked kind : Char → Bool} {place : Option Char} (holds : place.any asked)
    (excluded : ∀ character, asked character → kind character = false) :
    place.any kind = false := by
  cases place with
  | none => rfl
  | some character => exact excluded character holds

/-- Quotes are not of a kind that neither of them is of. -/
theorem quote_excluded {kind : Char → Bool} (single : kind '\'' = false) (double : kind '"' = false)
    (character : Char) (quote : isQuote character) : kind character = false := by
  rcases Bool.or_eq_true_iff.mp quote with same | same
  · exact of_decide_eq_true same ▸ single
  · exact of_decide_eq_true same ▸ double

/-- The signs of comments have no property that neither of them has. -/
theorem comment_sign_excluded {asked : Char → Bool} (slash : asked '/' = false)
    (asterisk : asked '*' = false) (character : Char) (holds : asked character) :
    isCommentSign character = false := by
  by_contra sign
  rcases Bool.or_eq_true_iff.mp (Bool.not_eq_false _ ▸ sign) with same | same
  · rw [of_decide_eq_true same, slash] at holds
    cases holds
  · rw [of_decide_eq_true same, asterisk] at holds
    cases holds

/-- Letters are in no number. -/
theorem not_numeric_of_isAlpha {character : Char} (letter : character.isAlpha) :
    isNumeric character = false := by
  have digit : isDigit character = false := Unicode.isDigit_of_isAlpha letter
  rw [isNumeric, digit, Bool.false_or, decide_eq_false_iff_not]
  rintro rfl
  cases letter

/-- The letters of types are those of ASCII. -/
theorem isAlpha_of_letters {character : Char} (letter : letters.contains character) :
    character.isAlpha := by
  refine Unicode.isAlpha_of_listed ?_
  simp only [letters, union, List.foldl_cons, List.foldl_nil, CharClass.contains, Bool.false_or,
    Bool.or_eq_true] at letter
  exact letter.symm

/-- What keywords are made of is in no number. -/
theorem keyword_sign_not_numeric (character : Char) (sign : isKeywordSign character) :
    isNumeric character = false := by
  rcases Bool.or_eq_true_iff.mp sign with letter | same
  · exact not_numeric_of_isAlpha letter
  · rw [of_decide_eq_true same]
    decide

/-- What names begin with is in no number. -/
theorem name_begin_not_numeric (character : Char) (begins : nameBegin.contains character) :
    isNumeric character = false := by
  simp only [nameBegin, union, List.foldl_cons, List.foldl_nil, CharClass.contains, lower, upper,
    Bool.false_or, Bool.or_eq_true] at begins
  rcases begins with letter | underscore
  · exact not_numeric_of_isAlpha
      (Unicode.isAlpha_of_listed (by simpa [CharClass.contains] using letter))
  · obtain rfl : character = '_' := by
      refine CharClass.contains_single.mp ?_
      simpa [CharClass.single, CharClass.contains] using underscore
    decide

/-- What types end with is in no number. -/
theorem type_end_not_numeric (character : Char) (ends : isTypeEnd character) :
    isNumeric character = false := by
  rcases Bool.or_eq_true_iff.mp ends with either | same
  · rcases Bool.or_eq_true_iff.mp either with letter | same
    · exact not_numeric_of_isAlpha (isAlpha_of_letters letter)
    · rw [of_decide_eq_true same]
      decide
  · rw [of_decide_eq_true same]
    decide

/-- The end of a line comment is not followed by a character of a kind that the line feed is not
of. -/
theorem line_end_excluded {kind : Char → Bool} (feed : kind '\n' = false) {place : Option Char}
    (ended : place.all (· = '\n')) : place.any kind = false := by
  cases place with
  | none => rfl
  | some character =>
    obtain rfl : character = '\n' := of_decide_eq_true ended
    exact feed

/-- No word goes on where a match of the plan begins or ends. -/
theorem plan_parts_words : ∀ part ∈ plan, Edged (Parted Unicode.isWord) part.2 := by
  have single : Unicode.isWord '\'' = false ∧ Unicode.isWord '"' = false ∧
      Unicode.isWord '(' = false ∧ Unicode.isWord '/' = false ∧ Unicode.isWord '\n' = false := by
    decide
  obtain ⟨quote, double, parenthesis, slash, feed⟩ := single
  intro part listed text first last preferred
  simp only [plan, List.mem_cons, List.not_mem_nil, or_false] at listed
  rcases listed with rfl | rfl | rfl | rfl | rfl | rfl
  · obtain ⟨before, _, _, follows⟩ := keyword_edges preferred
    exact ⟨.inl before, .inr (not_of_kind follows fun _ follower => (follower_apart follower).2.1)⟩
  · obtain ⟨begins, ends⟩ := literal_edges preferred
    exact ⟨.inr (not_of_kind begins (quote_excluded quote double)),
      .inl (not_of_kind ends (quote_excluded quote double))⟩
  · obtain ⟨before, _, follows⟩ := call_edges preferred
    refine ⟨.inl before, .inr ?_⟩
    rw [follows]
    exact parenthesis
  · obtain ⟨before, _, _, stops⟩ := number_edges preferred
    exact ⟨.inl before, .inr stops⟩
  · obtain ⟨before, _, _, either⟩ := class_edges preferred
    exact ⟨.inl before, either⟩
  · obtain ⟨begins, slashed | ended⟩ := comment_edges preferred
    · refine ⟨.inr ?_, .inl ?_⟩
      · rw [begins]
        exact slash
      · rw [slashed]
        exact slash
    · refine ⟨.inr ?_, .inr (line_end_excluded feed ended)⟩
      rw [begins]
      exact slash

/-- Matches of the plan other than numbers begin and end between no two characters of a number. -/
theorem plan_parts_numerics : ∀ part ∈ plan, part.1 ≠ .number → Edged (Parted isNumeric) part.2 := by
  have single : isNumeric '\'' = false ∧ isNumeric '"' = false ∧ isNumeric '(' = false ∧
      isNumeric '/' = false ∧ isNumeric '\n' = false := by
    decide
  obtain ⟨quote, double, parenthesis, slash, feed⟩ := single
  intro part listed other text first last preferred
  simp only [plan, List.mem_cons, List.not_mem_nil, or_false] at listed
  rcases listed with rfl | rfl | rfl | rfl | rfl | rfl
  · obtain ⟨_, begins, ends, _⟩ := keyword_edges preferred
    exact ⟨.inr (not_of_kind begins fun _ => not_numeric_of_isAlpha),
      .inl (not_of_kind ends keyword_sign_not_numeric)⟩
  · obtain ⟨begins, ends⟩ := literal_edges preferred
    exact ⟨.inr (not_of_kind begins (quote_excluded quote double)),
      .inl (not_of_kind ends (quote_excluded quote double))⟩
  · obtain ⟨_, begins, follows⟩ := call_edges preferred
    refine ⟨.inr (not_of_kind begins name_begin_not_numeric), .inr ?_⟩
    rw [follows]
    exact parenthesis
  · exact absurd rfl other
  · obtain ⟨_, begins, ends, _⟩ := class_edges preferred
    exact ⟨.inr (not_of_kind begins fun _ letter =>
      not_numeric_of_isAlpha (isAlpha_of_letters letter)), .inl (not_of_kind ends type_end_not_numeric)⟩
  · obtain ⟨begins, slashed | ended⟩ := comment_edges preferred
    · refine ⟨.inr ?_, .inl ?_⟩
      · rw [begins]
        exact slash
      · rw [slashed]
        exact slash
    · refine ⟨.inr ?_, .inr (line_end_excluded feed ended)⟩
      rw [begins]
      exact slash

/-- Matches of the plan other than comments begin and end between no two signs of a comment. -/
theorem plan_parts_comment_signs :
    ∀ part ∈ plan, part.1 ≠ .comment → Edged (Parted isCommentSign) part.2 := by
  intro part listed other text first last preferred
  simp only [plan, List.mem_cons, List.not_mem_nil, or_false] at listed
  rcases listed with rfl | rfl | rfl | rfl | rfl | rfl
  · obtain ⟨_, begins, _, follows⟩ := keyword_edges preferred
    exact ⟨.inr (not_of_kind begins (comment_sign_excluded (by decide) (by decide))),
      .inr (not_of_kind follows (comment_sign_excluded (by decide) (by decide)))⟩
  · obtain ⟨begins, ends⟩ := literal_edges preferred
    exact ⟨.inr (not_of_kind begins (quote_excluded (by decide) (by decide))),
      .inl (not_of_kind ends (quote_excluded (by decide) (by decide)))⟩
  · obtain ⟨_, begins, follows⟩ := call_edges preferred
    refine ⟨.inr (not_of_kind begins (comment_sign_excluded (by decide) (by decide))), .inr ?_⟩
    rw [follows]
    decide
  · obtain ⟨_, begins, ends, _⟩ := number_edges preferred
    exact ⟨.inr (not_of_kind begins (comment_sign_excluded (by decide) (by decide +kernel))),
      .inl (not_of_kind ends (comment_sign_excluded (by decide) (by decide +kernel)))⟩
  · obtain ⟨_, begins, ends, _⟩ := class_edges preferred
    exact ⟨.inr (not_of_kind begins (comment_sign_excluded (by decide) (by decide))),
      .inl (not_of_kind ends (comment_sign_excluded (by decide) (by decide)))⟩
  · exact absurd rfl other

/-- A quote is beside each place where a literal begins or ends. -/
theorem literals_quoted : Edged (fun last next => last.any isQuote ∨ next.any isQuote) literals :=
  fun preferred => (literal_edges preferred).imp .inr .inl

end Highlighter.Dart

import Highlighter.Proofs.Dart.Scanning
import Highlighter.Proofs.Regex.Trying

/-!
# Where types end

A class may go on behind its letters, with a type argument and with arguments, and it has to end
where a word begins or ends. Behind an angle bracket or a parenthesis that is where a word follows;
behind the letters it is where none goes on. So the pattern gives back its arguments, then its
type argument and then both, until it can end. `suffixEnd?` lists these ends in the order in which
they are tried.

Two of the repetitions have one end only. Letters given back leave a letter, in front of which no
suffix begins and no word ends, and what is in a type argument is not the bracket that closes it.
Arguments can end behind any parenthesis of the line that a word follows; they take the last.
-/

namespace Highlighter.Dart

open Text (Cursor)
open Regex (Expr CharClass runEnd isWordAt isWordBefore)
open Regex.Follow

/-- What stands in a type argument: parts of words and question marks. -/
def isArgument (character : Char) : Bool := Unicode.isWord character || character = '?'

/-- Where the type argument ends that begins at the position, if one does: behind the bracket that
closes it. -/
def typeArgumentEnd? (text : List Char) (position : Nat) : Option Nat :=
  let inner := runEnd text isArgument (position + 1)
  if text[position]? = some '<' ∧ position + 1 < inner ∧ text[inner]? = some '>' then
    some (inner + 1)
  else none

/-- A parenthesis is closed at the position and a word follows it. -/
def closesBeforeWord (text : List Char) (position : Nat) : Bool :=
  text[position]? = some ')' && isWordAt text (position + 1)

/-- Where the arguments end that begin at the position, if they do: behind the last parenthesis of
the line that a word follows. -/
def argumentsEnd? (text : List Char) (position : Nat) : Option Nat :=
  let line := runEnd text (· ≠ '\n') (position + 1)
  if text[position]? = some '(' then
    let inside := List.range' (position + 1) (line - (position + 1))
    (inside.filter (closesBeforeWord text)).getLast?.map (· + 1)
  else none

/-- Where a class ends whose letters end at the position. It is the first of these: behind a type
argument and arguments, behind a type argument that a word follows, behind arguments, and behind the
letters if no word goes on there. -/
def suffixEnd? (text : List Char) (letters : Nat) : Option Nat :=
  let generic := typeArgumentEnd? text letters
  (generic.bind (argumentsEnd? text)).or <| (generic.filter (isWordAt text)).or <|
    (argumentsEnd? text letters).or <| (some letters).filter fun last => !isWordAt text last

/-- Where the type ends that begins at the position, if one does: a whole word that names a type, or
letters that begin with a capital one, and what belongs to them. -/
def typeEnd? (text : List Char) (position : Nat) : Option Nat :=
  if isWordBefore text position then none
  else if (text.drop position).takeWhile Unicode.isWord ∈ typeNames.map String.toList then
    some (runEnd text Unicode.isWord position)
  else if text[position]?.any Char.isUpper then
    suffixEnd? text (runEnd text Char.isAlpha position)
  else none

variable {text : List Char} {position : Nat} {follow : Regex.Follow}

/-- Pass over a type argument. -/
def pastTypeArgument (text : List Char) : Regex.Follow → Regex.Follow :=
  past text (· = '<') ∘ (past text isArgument ∘ pastMany text isArgument) ∘ past text (· = '>') ∘ id

/-- Pass over arguments. -/
def pastArguments (text : List Char) : Regex.Follow → Regex.Follow :=
  past text (· = '(') ∘ pastMany text (· ≠ '\n') ∘ past text (· = ')') ∘ id

/-- Pass over a class. -/
def pastClass (text : List Char) : Regex.Follow → Regex.Follow :=
  past text Char.isUpper ∘ pastMany text Char.isAlpha ∘ perhaps (pastTypeArgument text) ∘
    perhaps (pastArguments text) ∘ id

/-- A type argument, by what it makes of what follows. -/
theorem type_argument_tries : typeArgument.Tries text (pastTypeArgument text) := by
  have inner : (union [.having .word, .single '?']).contains = isArgument := by
    funext character
    simp [union, CharClass.contains, CharClass.contains_single_eq, isArgument]
    rfl
  have tries : (atLeast 1 (.one (some (union [.having .word, .single '?'])))).Tries text _ :=
    .at_least_one _
  rw [inner] at tries
  exact .capture 7 (.sequences_cons (.letter '<') (.sequences_cons tries
    (.sequences_cons (.letter '>') .sequences_nil)))

/-- Arguments, by what they make of what follows. -/
theorem arguments_try : arguments.Tries text (pastArguments text) := by
  have line : CharClass.withinLine.contains = fun character => decide (character ≠ '\n') := by
    funext character
    simp [CharClass.withinLine, CharClass.contains, CharClass.contains_single_eq]
  have tries : (atLeast 0 (.one (some .withinLine))).Tries text _ := .many .withinLine
  rw [line] at tries
  exact .capture 8 (.sequences_cons (.letter '(') (.sequences_cons tries
    (.sequences_cons (.letter ')') .sequences_nil)))

/-- A class, by what it makes of what follows. -/
theorem class_tries :
    (Expr.sequences (className ++ [optional typeArgument, optional arguments])).Tries text
      (pastClass text) := by
  have capital : (union [upper]).contains = Char.isUpper := by
    rw [← upper_contains]
    exact funext fun _ => Bool.false_or _
  have letter : (union [upper, lower]).contains = Char.isAlpha := by
    funext character
    change ((false || upper.contains character) || lower.contains character) = _
    rw [Bool.false_or, upper_contains, lower_contains, Char.isAlpha]
  have first : (Expr.one (some (union [upper]))).Tries text _ := .one _
  have others : (atLeast 0 (.one (some (union [upper, lower])))).Tries text _ := .many _
  rw [capital] at first
  rw [letter] at others
  have suffix : (Expr.sequences [optional typeArgument, optional arguments]).Tries text _ :=
    .sequences_cons (.optional type_argument_tries)
      (.sequences_cons (.optional arguments_try) .sequences_nil)
  exact .sequences_cons first (.sequences_cons others suffix)

/-- The types of Dart, by what they make of what follows. -/
theorem classes_try : classes.Tries text (atBoundary text ∘
    firstOf (typeNames.map (fun name => pastWord text name.toList) ++ [pastClass text]) ∘
      atBoundary text ∘ id) := by
  refine .sequences_cons .boundary (.sequences_cons (.capture 1 (.alternatives (by decide) ?_))
    (.sequences_cons .boundary .sequences_nil))
  exact .cons (.capture 2 (.word _)) (.cons (.capture 3 (.word _)) (.cons (.capture 4 (.word _))
    (.cons (.capture 5 (.word _)) (.cons (.capture 6 class_tries) .nil))))

/-- The names of types are passed over where one of them is a whole word. -/
theorem first_of_names (names : List String)
    (plain : ∀ name ∈ names, name.toList ≠ [] ∧ ∀ letter ∈ name.toList, Unicode.isWord letter) :
    firstOf (names.map fun name => pastWord text name.toList) (atBoundary text some) position =
      if (text.drop position).takeWhile Unicode.isWord ∈ names.map String.toList then
        some (runEnd text Unicode.isWord position) else none := by
  induction names with
  | nil => rfl
  | cons name others induction =>
    obtain ⟨filled, words⟩ := plain name List.mem_cons_self
    rw [List.map_cons, first_of_cons, past_word_at_boundary filled words,
      induction fun other listed => plain other (List.mem_cons_of_mem name listed), List.map_cons]
    by_cases same : (text.drop position).takeWhile Unicode.isWord = name.toList
    · rw [if_pos same, Option.some_or, if_pos (List.mem_cons.mpr (.inl same))]
    · rw [if_neg same, Option.none_or]
      simp only [List.mem_cons, same, false_or]

/-- What follows a type argument goes on at its end. -/
theorem past_type_argument : pastTypeArgument text follow position =
    (typeArgumentEnd? text position).bind follow := by
  have fails : ∀ between, position + 1 < between →
      between < runEnd text isArgument (position + 1) →
      past text (· = '>') follow between = none := by
    intro between behind inside
    rw [past_letter, if_neg (Regex.ne_of_run (by decide) (Nat.le_of_lt behind) inside)]
  change past text (· = '<') (past text isArgument (pastMany text isArgument
    (past text (· = '>') follow))) position = _
  rw [past_letter, some_at_end fails, past_letter, typeArgumentEnd?]
  simp only [ite_and]
  split_ifs <;> rfl

/-- Arguments that end where a word begins end behind the last parenthesis that a word follows. -/
theorem past_arguments : pastArguments text (atBoundary text some) position =
    argumentsEnd? text position := by
  have closes (other : Nat) : past text (· = ')') (atBoundary text some) other =
      if closesBeforeWord text other then some (other + 1) else none := by
    rw [past_letter, closesBeforeWord]
    by_cases closed : text[other]? = some ')'
    · -- The parenthesis is no part of a word, so one has to begin behind it.
      have apart : isWordBefore text (other + 1) = false := by
        rw [Regex.word_before_succ, isWordAt, closed]
        decide
      rw [if_pos closed, at_boundary_apart apart]
      simp [closed]
    · simp [closed]
  have ended : closesBeforeWord text (runEnd text (· ≠ '\n') (position + 1)) = false := by
    have stops : text[runEnd text (· ≠ '\n') (position + 1)]?.any (· ≠ '\n') = false :=
      Regex.run_stops
    rw [closesBeforeWord]
    by_contra closed
    simp_all
  change past text (· = '(') (pastMany text (· ≠ '\n')
    (past text (· = ')') (atBoundary text some))) position = _
  rw [past_letter, many_of_leads closes ended, argumentsEnd?]

/-- What may follow the letters of a class is told by the first suffix that leads on. -/
theorem suffix_end_agrees (behind : isWordBefore text position) :
    perhaps (pastTypeArgument text) (perhaps (pastArguments text) (atBoundary text some)) position =
      suffixEnd? text position := by
  have alone (last : Nat) : perhaps (pastArguments text) (atBoundary text some) last =
      (argumentsEnd? text last).or (atBoundary text some last) := by
    rw [perhaps, past_arguments]
  have ended : (some position).filter (fun last => !isWordAt text last) =
      if isWordAt text position then none else some position := by
    rw [Option.filter_some]
    cases isWordAt text position <;> rfl
  rw [perhaps, past_type_argument, alone, at_boundary_behind behind, suffixEnd?]
  cases generic : typeArgumentEnd? text position with
  | none => rw [Option.bind_none, Option.bind_none, Option.filter_none, ended, Option.none_or,
      Option.none_or]
  | some last =>
    -- What closes the type argument is no part of a word either.
    have apart : isWordBefore text last = false := by
      rw [typeArgumentEnd?] at generic
      obtain ⟨⟨_, _, closed⟩, same⟩ := Option.ite_none_right_eq_some.mp generic
      rw [← Option.some.inj same, Regex.word_before_succ, isWordAt, closed]
      decide
    rw [Option.bind_some, Option.bind_some, alone, at_boundary_apart apart, Option.or_assoc,
      Option.filter_some, ended]

/-- A capital letter is a letter. -/
theorem alpha_of_upper {letter : Char} (capital : letter.isUpper) : letter.isAlpha := by
  rw [Char.isAlpha, capital, Bool.true_or]

/-- A class is a capital letter with all letters behind it, and a suffix.

Proof: behind a letter that more letters follow no suffix begins and no word ends. -/
theorem past_class : pastClass text (atBoundary text some) position =
    if text[position]?.any Char.isUpper then suffixEnd? text (runEnd text Char.isAlpha position)
    else none := by
  let suffix := perhaps (pastTypeArgument text)
    (perhaps (pastArguments text) (atBoundary text some))
  have words : ∀ character, Char.isAlpha character → Unicode.isWord character :=
    fun _ => Unicode.isWord_of_isAlpha
  have fails : ∀ between, position < between → between < runEnd text Char.isAlpha position →
      suffix between = none := by
    intro between behind inside
    have argument : typeArgumentEnd? text between = none := if_neg fun all =>
      Regex.ne_of_run (by decide) (Nat.le_of_lt behind) inside all.1
    have arguments : argumentsEnd? text between = none :=
      if_neg (Regex.ne_of_run (by decide) (Nat.le_of_lt behind) inside)
    simp only [suffix, perhaps, past_type_argument, past_arguments, argument, arguments,
      at_boundary_of_run words behind inside, Option.bind_none, Option.or_none]
  change past text Char.isUpper (pastMany text Char.isAlpha suffix) position = _
  rw [first_at_end (fun _ => alpha_of_upper) fails]
  by_cases capital : text[position]?.any Char.isUpper
  · have filled := Regex.lt_run_end_iff.mpr
      (Regex.any_of_kinds (fun _ => alpha_of_upper) capital)
    rw [if_pos capital, if_pos capital]
    exact suffix_end_agrees (Regex.word_before_of_run words filled (Nat.le_refl _))
  · rw [if_neg capital, if_neg capital]

/-- The preferred type that begins at a place is the one that the text tells. -/
theorem type_end_agrees (place : Cursor text) :
    typeEnd? text place.index = (classes.ends place).head?.map Cursor.index := by
  have plain : ∀ name ∈ typeNames, name.toList ≠ [] ∧
      ∀ letter ∈ name.toList, Unicode.isWord letter := by decide
  rw [classes_try.head place]
  generalize place.index = position
  let begun := firstOf (typeNames.map (fun name => pastWord text name.toList) ++ [pastClass text])
    (atBoundary text some)
  have chosen : begun position =
      if (text.drop position).takeWhile Unicode.isWord ∈ typeNames.map String.toList then
        some (runEnd text Unicode.isWord position)
      else if text[position]?.any Char.isUpper then
        suffixEnd? text (runEnd text Char.isAlpha position)
      else none := by
    change List.findSome? _ _ = _
    rw [List.findSome?_append, List.findSome?_singleton, past_class]
    change (firstOf _ _ _).or _ = _
    rw [first_of_names typeNames plain]
    split_ifs <;> rfl
  have fails : isWordAt text position = false → begun position = none := by
    intro missing
    have small : ¬ text[position]?.any Char.isUpper := by
      intro capital
      have word : isWordAt text position :=
        Regex.any_of_kinds (fun _ first => Unicode.isWord_of_isAlpha (alpha_of_upper first)) capital
      exact Bool.false_ne_true (missing.symm.trans word)
    rw [chosen, Regex.run_eq_nil missing, if_neg (by decide), if_neg small]
  change _ = atBoundary text begun position
  rw [at_boundary_of_begins fails, chosen, typeEnd?]

example : typeEnd? "List<int>(a) b".toList 0 = some 4 := by decide
example : typeEnd? "A(b)c)d".toList 0 = some 6 := by decide
example : typeEnd? "interface".toList 0 = none := by decide

end Highlighter.Dart

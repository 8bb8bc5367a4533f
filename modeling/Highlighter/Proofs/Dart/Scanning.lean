import Highlighter.Proofs.Highlight.Completion
import Highlighter.Proofs.Regex.Scanner

/-!
# Scanning with the patterns of Dart

The patterns of Dart compile, and a search with one of them is given up only where it fills the
stack. So what a scan reports that comes to the end of its text is what a scanner finds, as soon as
the scanner agrees with the pattern at each single place. An automaton has no stack, and scans with
it come to the end of every text. Signs are what most scanners look at.
-/

namespace Highlighter.Dart

open Text (Cursor)
open Regex (Expr CharClass)
open Regex.Machine (beginning stackLimit Overflows)

/-- Each entry of the plan is read as the expression of its category. -/
theorem read_of_category {entry : Category × Option Pattern} {part : Category × Expr}
    (planned : entry ∈ Grammar.dart.plan) (listed : part ∈ plan) (same : entry.1 = part.1) :
    Grammar.ReadAs entry part := by
  obtain ⟨other, among, reads⟩ := exists_read planned
  have distinct : (plan.map Prod.fst).Nodup := by decide
  obtain rfl : other = part :=
    List.inj_on_of_nodup_map distinct among listed (reads.1.symm.trans same)
  exact reads

/-- No pattern of Dart matches a text without characters. -/
theorem minimal_length_pos {part : Category × Expr} (listed : part ∈ plan) :
    0 < part.2.minimalLength :=
  (show ∀ part ∈ plan, 0 < part.2.minimalLength by decide +kernel) part listed

/-- With the limit of the text or a higher one, a pattern of Dart reports what the scanner finds,
unless a search fills the stack. -/
theorem spans_of_category {category : Category} {entry : Option Pattern} {expression : Expr}
    (planned : (category, entry) ∈ Grammar.dart.plan) (listed : (category, expression) ∈ plan)
    (content : String) {ending? : Nat → Option Nat}
    (agrees : ∀ place : Cursor content.toList,
      ending? place.index = (expression.ends place).head?.map Cursor.index) :
    ∃ pattern, entry = some pattern ∧ ∀ limit, Pattern.searchLimit content ≤ limit →
      ∃ regex, pattern.compile limit = .ok regex ∧
        ((regex.scan content.toList).problem = none ∧
            (regex.scan content.toList).spans = Regex.byteSpans content.toList
              (Regex.leftToRight content.toList.length ending? 0) ∨
          (regex.scan content.toList).problem = some (.exceeded .stack) ∧
            ¬ Bounded category content.toList) := by
  obtain ⟨_, pattern, present, _, reads⟩ := read_of_category planned listed rfl
  have reliable := Highlight.dart_reliable _ planned pattern present
  refine ⟨pattern, present, fun limit large => ?_⟩
  obtain ⟨regex, compiled⟩ := reliable.compiles limit
  refine ⟨regex, compiled, ?_⟩
  rcases reliable.scan_cases large compiled with ended | overflown
  · exact .inl ⟨ended, Regex.spans_of_scanner (reads.stands compiled)
      (minimal_length_pos listed) agrees ended⟩
  · exact .inr overflown

/-- A pattern of Dart for an automaton reports what the scanner finds, whatever the limit. -/
theorem spans_of_automaton {category : Category} {entry : Option Pattern} {expression : Expr}
    (planned : (category, entry) ∈ Grammar.dart.plan) (listed : (category, expression) ∈ plan)
    {automaton : Regex.Automaton}
    (automatic : Regex.Compile.matcher expression = .ok (.automaton automaton))
    (content : String) {ending? : Nat → Option Nat}
    (agrees : ∀ place : Cursor content.toList,
      ending? place.index = (expression.ends place).head?.map Cursor.index) :
    ∃ pattern, entry = some pattern ∧ ∀ limit, ∃ regex, pattern.compile limit = .ok regex ∧
      (regex.scan content.toList).problem = none ∧
      (regex.scan content.toList).spans = Regex.byteSpans content.toList
        (Regex.leftToRight content.toList.length ending? 0) := by
  obtain ⟨_, pattern, present, _, reads⟩ := read_of_category planned listed rfl
  refine ⟨pattern, present, fun limit => ?_⟩
  have compiled := reads.compile_eq automatic limit
  have ended : (Regex.scan ⟨.automaton automaton, limit⟩ content.toList).problem = none :=
    Regex.scan_ok fun _ => ⟨_, rfl⟩
  exact ⟨_, compiled, ended, Regex.spans_of_scanner (reads.stands compiled)
    (minimal_length_pos listed) agrees ended⟩

/-- The literals of a text that begins with a quote are not found if the quote is not closed before
the stack is full. -/
theorem literals_given_up {content : String} {ahead rest : List Char}
    (split : content.toList = '\'' :: (ahead ++ rest))
    (plain : ∀ character ∈ ahead, character ≠ '\'' ∧ character ≠ '\\')
    (unmarked : (ahead ++ rest).head? ≠ some '>') (long : stackLimit ≤ ahead.length)
    {pattern : Pattern} (present : Grammar.dart.literals = some pattern) {regex : Regex}
    (compiled : pattern.compile (Pattern.searchLimit content) = .ok regex) :
    (regex.scan content.toList).problem = some (.exceeded .stack) := by
  obtain ⟨_, ⟨_, _, same, _, reads⟩, _⟩ := entries_read
  obtain rfl := Option.some.inj (present.symm.trans same)
  obtain rfl := Except.ok.inj ((reads.compile_eq literals_matcher _).symm.trans compiled)
  have overflows : Overflows literalsCode (beginning (Cursor.start content.toList)) _ :=
    literals_overflow split plain unmarked long
  refine Regex.scan_overflown (Regex.find_overflown rfl overflows ?_)
  have steps := Pattern.steps_le_limit content (Cursor.start content.toList)
  have characters := congrArg List.length split
  change stepsPerCharacter * (content.toList.length + 1) ≤ _ at steps
  simp only [List.length_cons, List.length_append, stepsPerCharacter] at characters steps
  change _ ≤ Pattern.searchLimit content
  omega

/-- The functions of a text that begins with a name are not found if the name does not end before
the stack is full. -/
theorem functions_given_up {content : String} {initial : Char} {ahead rest : List Char}
    (split : content.toList = initial :: (ahead ++ rest)) (begins : nameBegin.contains initial)
    (name : ∀ character ∈ ahead, Unicode.isWord character) (long : stackLimit ≤ ahead.length)
    {pattern : Pattern} (present : Grammar.dart.functions = some pattern) {limit : Nat}
    {regex : Regex} (compiled : pattern.compile limit = .ok regex) :
    (regex.scan content.toList).problem = some (.exceeded .stack) := by
  obtain ⟨_, _, ⟨_, _, same, _, reads⟩, _⟩ := entries_read
  obtain rfl := Option.some.inj (present.symm.trans same)
  obtain rfl := Except.ok.inj ((reads.compile_eq functions_matcher _).symm.trans compiled)
  have overflows : Overflows functionsCode (beginning (Cursor.start content.toList)) 0 :=
    functions_overflow split begins rfl name long
  exact Regex.scan_overflown (Regex.find_overflown rfl overflows (Nat.zero_le _))

/-- A quote that is not closed, with a number behind it and letters up to the end of the text. -/
def openQuote (letters : Nat) : String :=
  String.ofList ('\'' :: '1' :: ',' :: List.replicate letters 'a')

theorem to_list_open_quote (letters : Nat) :
    (openQuote letters).toList = '\'' :: '1' :: ',' :: List.replicate letters 'a' :=
  String.toList_ofList

/-- The literals of an open quote are not found if the letters fill the stack. -/
theorem open_quote_given_up {letters : Nat} (long : stackLimit ≤ letters) {pattern : Pattern}
    (present : Grammar.dart.literals = some pattern) {regex : Regex}
    (compiled : pattern.compile (Pattern.searchLimit (openQuote letters)) = .ok regex) :
    (regex.scan (openQuote letters).toList).problem = some (.exceeded .stack) := by
  have split : (openQuote letters).toList =
      '\'' :: (('1' :: ',' :: List.replicate letters 'a') ++ []) := by
    rw [to_list_open_quote, List.append_nil]
  refine literals_given_up split (fun character listed => ?_) (by simp) ?_ present compiled
  · simp only [List.mem_cons, List.mem_replicate] at listed
    rcases listed with rfl | rfl | ⟨_, rfl⟩ <;> decide
  · simp only [List.length_cons, List.length_replicate]
    omega

/-- The functions of a text that begins with letters are not found if these fill the stack. -/
theorem long_name_given_up {content : String} {letters : Nat} {rest : List Char}
    (split : content.toList = List.replicate letters 'a' ++ rest) (long : stackLimit < letters)
    {pattern : Pattern} (present : Grammar.dart.functions = some pattern) {limit : Nat}
    {regex : Regex} (compiled : pattern.compile limit = .ok regex) :
    (regex.scan content.toList).problem = some (.exceeded .stack) := by
  cases letters with
  | zero => exact absurd long (Nat.not_lt_zero _)
  | succ letters =>
    rw [List.replicate_succ, List.cons_append] at split
    refine functions_given_up split (by decide) (fun character listed => ?_) ?_ present compiled
    · obtain rfl := List.eq_of_mem_replicate listed
      decide
    · rw [List.length_replicate]
      exact Nat.le_of_lt_succ long

/-- What a pattern lists from `A` to `Z` are the capital letters of ASCII. -/
theorem upper_contains : upper.contains = Char.isUpper := by
  funext character
  rw [Bool.eq_iff_iff]
  simp only [upper, CharClass.contains, Char.isUpper, Bool.and_eq_true, decide_eq_true_eq]
  rfl

/-- What a pattern lists from `a` to `z` are the small letters of ASCII. -/
theorem lower_contains : lower.contains = Char.isLower := by
  funext character
  rw [Bool.eq_iff_iff]
  simp only [lower, CharClass.contains, Char.isLower, Bool.and_eq_true, decide_eq_true_eq]
  rfl

variable {text : List Char}

/-- At the end of the text no sign matches. -/
theorem sign_ends_at_end {place : Cursor text} (passed : text[place.index]? = none)
    (wanted : Char) : (sign wanted).ends place = [] :=
  CharClass.ends_at_end _ passed

/-- A sign matches where it is, and no other does there. -/
theorem sign_ends_at {place : Cursor text} {character : Char}
    (held : text[place.index]? = some character) :
    ∃ further : Cursor text, further.index = place.index + 1 ∧
      ∀ wanted, (sign wanted).ends place = if character = wanted then [further] else [] := by
  obtain ⟨further, moved, taken⟩ := CharClass.ends_at held
  refine ⟨further, moved, fun wanted => ?_⟩
  have single := taken (CharClass.single wanted)
  simp only [CharClass.single, CharClass.contains_single] at single
  exact single

/-- A sign matches nowhere else. -/
theorem sign_ends_elsewhere {place : Cursor text} {wanted : Char}
    (other : text[place.index]? ≠ some wanted) : (sign wanted).ends place = [] := by
  cases held : text[place.index]? with
  | none => exact sign_ends_at_end held wanted
  | some character =>
    obtain ⟨further, _, taken⟩ := sign_ends_at held
    refine (taken wanted).trans (if_neg ?_)
    rintro rfl
    exact other held

end Highlighter.Dart

import Highlighter.Grammar.Dart
import Highlighter.Proofs.Grammar.Pattern
import Highlighter.Proofs.Unicode.Property

/-!
# The patterns of Dart as expressions

Each pattern of the plan of Dart, with the expression that it is read as. What the patterns
do to a text is shown from these expressions.
-/

namespace Highlighter

open Regex (Expr CharClass)

namespace Dart

/-- The expression for a character of its own. -/
def sign (character : Char) : Expr := .literal character false

/-- The characters of some sets. -/
def union (sets : List CharClass) : CharClass := sets.foldl .union .nothing

/-- As many as there are, but at least so many. -/
def atLeast (least : Nat) (body : Expr) : Expr := .repetition body least none true

/-- A part that may be missing. -/
def optional (body : Expr) : Expr := .repetition body 0 (some 1) true

def lower : CharClass := .range 'a' 'z'
def upper : CharClass := .range 'A' 'Z'
def digits : Expr := atLeast 1 (.one (some (.having .digit)))

/-- The keywords of Dart. -/
def words : List Keyword := Grammar.dartKeywords.map fun text => .ofText text.toList

def numbers : Expr :=
  .sequences [.assertion .wordBoundary, digits,
    optional (.capture 1 (.sequences [sign '.', digits])), .assertion .wordBoundary]

/-- What a name begins with. -/
def nameBegin : CharClass := union [lower, upper, .single '_']

/-- A name and the blanks behind it. -/
def name : List Expr :=
  [.assertion .wordBoundary, .one (some nameBegin), atLeast 0 (.one (some (.having .word))),
   .assertion .wordBoundary, atLeast 0 (sign ' ')]

def functions : Expr := .sequences (name ++ [.look .ahead false (sign '(')])

/-- A quote behind a backslash, or a character other than the quote. -/
def quotedRound (quote : Char) (group : Nat) : Expr :=
  .capture group (.alternatives
    [.capture (group + 1) (.sequences (['\\', quote].map sign)),
      .one (some (.complement (union [.single quote])))])

/-- A text between two quotes of a kind, neither of them followed by `>`. A quote behind a
backslash may belong to the text. -/
def quoted (quote : Char) (group : Nat) : Expr :=
  .sequences [sign quote, .look .ahead true (sign '>'), atLeast 0 (quotedRound quote group),
    sign quote, .look .ahead true (sign '>')]

def literals : Expr := .alternatives [quoted '\'' 1, quoted '"' 3]

/-- A type argument of a class. -/
def typeArgument : Expr :=
  .capture 7 (.sequences
    [sign '<', atLeast 1 (.one (some (union [.having .word, .single '?']))), sign '>'])

/-- The arguments of a class. -/
def arguments : Expr :=
  .capture 8 (.sequences [sign '(', atLeast 0 (.one (some .withinLine)), sign ')'])

/-- The name of a class. -/
def className : List Expr :=
  [.one (some (union [upper])), atLeast 0 (.one (some (union [upper, lower])))]

/-- The names of types that are not written as classes are. -/
def typeNames : List String := ["int", "bool", "double", "num"]

def classes : Expr :=
  .sequences [.assertion .wordBoundary,
    .capture 1 (.alternatives (
      (typeNames.mapIdx fun position name =>
        .capture (position + 2) (.sequences (name.toList.map sign))) ++
      [.capture 6 (.sequences (className ++ [optional typeArgument, optional arguments]))])),
    .assertion .wordBoundary]

def comments : Expr :=
  .group (.alternatives
    [.capture 1 (.sequences [sign '/', sign '/',
      atLeast 0 (.one (some (.complement (union [.single '\n']))))]),
      .capture 2 (.sequences [sign '/', sign '*', .repetition (.one (some .anything)) 0 none false,
        sign '*', sign '/'])])

/-- The expressions in the order of the plan. -/
def plan : List (Category × Expr) :=
  [(.keyword, keywordsExpr words), (.literal, literals), (.function, functions),
   (.number, numbers), (.type, classes), (.comment, comments)]

/-- What a name begins with belongs to words. -/
theorem isWord_of_name_begin {character : Char} (contained : nameBegin.contains character) :
    Unicode.isWord character := by
  simp only [nameBegin, union, List.foldl, CharClass.contains, Bool.false_or, Bool.or_eq_true]
    at contained
  rcases contained with (small | large) | underscore
  · exact Unicode.isWord_of_listed (.inl small)
  · exact Unicode.isWord_of_listed (.inr large)
  · obtain rfl := CharClass.contains_single.mp underscore
    decide

/-- The keywords consist of letters. -/
theorem words_plain : ∀ word ∈ words, ∀ letter ∈ word.letters, Unicode.isAsciiWord letter := by
  decide +kernel

/-- A match of the keywords is not empty, and the way to it is not looked for twice. -/
theorem keywords_plain : (keywordsExpr words).tame ∧ 0 < (keywordsExpr words).minimalLength := by
  decide +kernel

/-- The pattern of the keywords is read as all of them, one by one. -/
theorem keywords_read : (Pattern.keywords Grammar.dartKeywords).ReadAs (keywordsExpr words) :=
  ⟨Highlighter.keywords_read (by decide +kernel) words_plain (by decide +kernel),
    by decide +kernel⟩

/-- Every entry of the plan is read as its expression.

Proof: the reader is run on each of the patterns, but that of the keywords. -/
theorem plan_read : List.Forall₂ Grammar.ReadAs Grammar.dart.plan plan := by
  refine .cons ⟨rfl, _, rfl, by decide +kernel, keywords_read⟩ ?_
  refine .cons ⟨rfl, _, rfl, rfl, by cbv, by decide⟩ ?_
  refine .cons ⟨rfl, _, rfl, rfl, by cbv, by decide⟩ ?_
  refine .cons ⟨rfl, _, rfl, rfl, by cbv, by decide⟩ ?_
  refine .cons ⟨rfl, _, rfl, rfl, by cbv, by decide +kernel⟩ ?_
  exact .cons ⟨rfl, _, rfl, rfl, by cbv, by decide⟩ .nil

/-- How the entries of the plan are read, one by one. -/
theorem entries_read :
    Grammar.ReadAs (.keyword, Grammar.dart.keywords) (.keyword, keywordsExpr words) ∧
      Grammar.ReadAs (.literal, Grammar.dart.literals) (.literal, literals) ∧
      Grammar.ReadAs (.function, Grammar.dart.functions) (.function, functions) ∧
      Grammar.ReadAs (.number, Grammar.dart.numbers) (.number, numbers) ∧
      Grammar.ReadAs (.type, Grammar.dart.classes) (.type, classes) ∧
      Grammar.ReadAs (.comment, Grammar.dart.comments) (.comment, comments) := by
  have reads : List.Forall₂ Grammar.ReadAs
      [(.keyword, Grammar.dart.keywords), (.literal, Grammar.dart.literals),
        (.function, Grammar.dart.functions), (.number, Grammar.dart.numbers),
        (.type, Grammar.dart.classes), (.comment, Grammar.dart.comments)] plan := plan_read
  simp only [plan, List.forall₂_cons] at reads
  obtain ⟨keyword, literal, function, number, type, comment, _⟩ := reads
  exact ⟨keyword, literal, function, number, type, comment⟩

/-- Each entry of the plan is read as some expression. -/
theorem exists_read {entry : Category × Option Pattern} (planned : entry ∈ Grammar.dart.plan) :
    ∃ part ∈ plan, Grammar.ReadAs entry part := by
  obtain ⟨same, pairs⟩ := List.forall₂_iff_get.mp plan_read
  obtain ⟨position, rfl⟩ := List.mem_iff_get.mp planned
  exact ⟨_, List.get_mem _ _, pairs position position.isLt (Nat.lt_of_lt_of_eq position.isLt same)⟩

end Dart

end Highlighter

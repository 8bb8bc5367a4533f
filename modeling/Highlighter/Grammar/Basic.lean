import Highlighter.Category
import Highlighter.Grammar.Pattern

/-!
# Grammars

A `Grammar` describes a language by one pattern for each category of its text. Applying
it means going through its plan: the categories in a fixed order, each with its pattern.
A later pattern is applied to text that already carries the markup of earlier ones, so
patterns have to keep off the tags.
-/

namespace Highlighter

/-- A language. A missing pattern leaves its category out. -/
structure Grammar where
  name : String
  /-- The extensions of the files that hold the language, without a leading dot. -/
  extensions : List String
  comments : Option Pattern := none
  keywords : Option Pattern := none
  numbers : Option Pattern := none
  literals : Option Pattern := none
  classes : Option Pattern := none
  /-- Any name. It is not marked on its own; functions are found with it. -/
  identifiers : Option Pattern := none
  deriving DecidableEq, Repr

/-- A text without the periods at its begin. -/
def withoutDots (text : String) : String := String.ofList (text.toList.dropWhile (· = '.'))

namespace Grammar

/-- What makes a name a call: blanks, and an opening parenthesis ahead. -/
def call : Pattern := ⟨" *(?=\\()", {}⟩

/-- Names in front of an opening parenthesis. -/
def functions (grammar : Grammar) : Option Pattern :=
  grammar.identifiers.map (· ++ call)

/-- The categories in the order in which they are applied, with their patterns. -/
def plan (grammar : Grammar) : List (Category × Option Pattern) :=
  [(.keyword, grammar.keywords),
   (.literal, grammar.literals),
   (.function, grammar.functions),
   (.number, grammar.numbers),
   (.type, grammar.classes),
   (.comment, grammar.comments)]

end Grammar

end Highlighter

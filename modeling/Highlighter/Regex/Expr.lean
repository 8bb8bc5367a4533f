import Highlighter.Regex.CharClass
import Highlighter.Text.Cursor

/-!
# Regular expressions

The tree that a pattern text is read into, and the conditions on a place that it can
contain. Sequences and alternatives are binary; longer ones nest to the right.
-/

namespace Highlighter.Regex

open Text (Cursor)

/-- A condition on a place of the text. It consumes nothing. -/
inductive Assertion where
  | textStart | textEnd | lineStart | lineEnd
  | wordBoundary | notWordBoundary | wordStart | wordEnd
  deriving DecidableEq, Repr

namespace Assertion

/-- The first of the characters belongs to a word. -/
def startsWithWord (characters : List Char) : Bool := characters.head?.any Unicode.isWord

/-- The condition looks at what belongs to words. -/
def concernsWords : Assertion → Bool
  | wordBoundary | notWordBoundary | wordStart | wordEnd => true
  | textStart | textEnd | lineStart | lineEnd => false

/-- The condition holds at the place. A line begins behind a line feed and ends before
one; a word boundary has a word character on exactly one side. -/
def holds {text : List Char} (assertion : Assertion) (cursor : Cursor text) : Bool :=
  match assertion with
  | textStart => cursor.before.isEmpty
  | textEnd => cursor.after.isEmpty
  | lineStart => cursor.before.head?.all (· = '\n')
  | lineEnd => cursor.after.head?.all (· = '\n')
  | wordBoundary => startsWithWord cursor.before != startsWithWord cursor.after
  | notWordBoundary => startsWithWord cursor.before == startsWithWord cursor.after
  | wordStart => !startsWithWord cursor.before && startsWithWord cursor.after
  | wordEnd => startsWithWord cursor.before && !startsWithWord cursor.after

end Assertion

/-- The direction of a lookaround. -/
inductive Direction where
  | ahead | behind
  deriving DecidableEq, Repr

/-- A regular expression. -/
inductive Expr where
  /-- Matches without consuming anything. -/
  | empty
  /-- One character of a set; nothing stands for a set that was written wrongly. -/
  | one (set : Option CharClass)
  | assertion (assertion : Assertion)
  | sequence (first second : Expr)
  /-- The first alternative is preferred. -/
  | either (first second : Expr)
  /-- From `least` to `most` repetitions, without end if `most` is nothing. A greedy
  repetition prefers more, another one prefers fewer. -/
  | repetition (body : Expr) (least : Nat) (most : Option Nat) (greedy : Bool)
  | capture (group : Nat) (body : Expr)
  /-- Parentheses that keep several parts together and do nothing else. -/
  | group (body : Expr)
  | look (direction : Direction) (negated : Bool) (body : Expr)
  /-- Keeps the first way in which the body matches and forgets the others. -/
  | atomic (body : Expr)
  /-- The text that a capture group matched last. -/
  | reference (group : Nat)
  deriving DecidableEq, Repr

namespace Expr

/-- The expression for a single character. -/
def literal (character : Char) (caseInsensitive : Bool) : Expr :=
  one (some ((CharClass.single character).foldedIf caseInsensitive))

/-- The expressions one after another. -/
def sequences : List Expr → Expr
  | [] => empty
  | [only] => only
  | first :: rest => sequence first (sequences rest)

/-- The expressions as alternatives, the preferred one first. -/
def alternatives : List Expr → Expr
  | [] => empty
  | [only] => only
  | first :: rest => either first (alternatives rest)

/-- Keep the parts of an expression together. A single part needs no group. -/
def grouped : Expr → Expr
  | sequence first second => group (sequence first second)
  | either first second => group (either first second)
  | other => other

/-- A repetition operator may follow the expression. It may not follow a condition, a
lookaround or nothing at all. -/
def repeatable : Expr → Bool
  | empty | assertion _ | look _ _ _ => false
  | _ => true

end Expr

end Highlighter.Regex

import Highlighter.Unicode.CaseFold
import Highlighter.Unicode.Property

/-!
# Character classes

A `CharClass` describes a set of characters by the operations that pattern syntax offers
and is read by asking whether it contains a character. Nothing is expanded into lists of
ranges: the meaning of each operation is one line of `contains`.
-/

namespace Highlighter.Regex

open Unicode (Property)

/-- A set of characters. -/
inductive CharClass where
  /-- The empty set. -/
  | nothing
  /-- The characters from the first to the last, both included. -/
  | range (first last : Char)
  /-- The characters with a property. -/
  | having (property : Property)
  | union (left right : CharClass)
  | intersection (left right : CharClass)
  /-- The characters of the left set that the right one lacks. -/
  | difference (left right : CharClass)
  /-- The characters that exactly one of the sets has. -/
  | symmetricDifference (left right : CharClass)
  /-- The characters that the set lacks. -/
  | complement (inner : CharClass)
  /-- The set together with the case variants of its characters. -/
  | caseClosure (inner : CharClass)
  deriving DecidableEq, Repr

namespace CharClass

/-- The set contains the character. -/
def contains : CharClass → Char → Bool
  | nothing, _ => false
  | range first last, character => first ≤ character && character ≤ last
  | having property, character => property.holds character
  | union left right, character => left.contains character || right.contains character
  | intersection left right, character => left.contains character && right.contains character
  | difference left right, character => left.contains character && !right.contains character
  | symmetricDifference left right, character =>
    left.contains character != right.contains character
  | complement inner, character => !inner.contains character
  | caseClosure inner, character => (Unicode.caseVariants character).any inner.contains

/-- The set of one character. -/
def single (character : Char) : CharClass := range character character

/-- Close a set under case variants if case is to be disregarded. -/
def foldedIf (caseInsensitive : Bool) (set : CharClass) : CharClass :=
  if caseInsensitive then caseClosure set else set

/-- Take the complement of a set if it is negated. -/
def complementIf (negated : Bool) (set : CharClass) : CharClass :=
  if negated then complement set else set

/-- The union of several sets. -/
def unions (sets : List CharClass) : CharClass := sets.foldr union nothing

/-- Hexadecimal digits of either case. -/
def hexDigit : CharClass := unions [range '0' '9', range 'A' 'F', range 'a' 'f']

/-- Every character. -/
def anything : CharClass := having .any

/-- Every character but the line feed. -/
def withinLine : CharClass := complement (single '\n')

/-- The classes that a bracket expression can name between `[:` and `:]`. They hold
ASCII characters only. -/
def posix : List (String × CharClass) :=
  [("alnum", unions [range '0' '9', range 'A' 'Z', range 'a' 'z']),
   ("alpha", unions [range 'A' 'Z', range 'a' 'z']),
   ("ascii", range '\x00' '\x7f'),
   ("blank", unions [single '\t', single ' ']),
   ("cntrl", unions [range '\x00' '\x1f', single '\x7f']),
   ("digit", range '0' '9'),
   ("graph", range '!' '~'),
   ("lower", range 'a' 'z'),
   ("print", range ' ' '~'),
   ("punct", unions [range '!' '/', range ':' '@', range '[' '\x60', range '\x7b' '~']),
   ("space", unions [range '\t' '\r', single ' ']),
   ("upper", range 'A' 'Z'),
   ("word", unions [range '0' '9', range 'A' 'Z', single '_', range 'a' 'z']),
   ("xdigit", hexDigit)]

/-- The set that a property expression describes, given what follows `\p`: one letter, or
a name or a pair in braces. A caret in the braces, or a capital `P`, negates it. Case is
disregarded before the negation. -/
def ofPropertyText? (caseInsensitive negated : Bool) (body : List Char) : Option CharClass :=
  let (inverted, name) := match body with
    | '^' :: rest => (true, rest)
    | _ => (false, body)
  let key := name.takeWhile fun letter => letter ≠ '=' && letter ≠ ':'
  let rest := name.drop key.length
  let (unequal, key) := match key.reverse, rest with
    | '!' :: reversed, '=' :: _ => (true, reversed.reverse)
    | _, _ => (false, key)
  let property := if rest.isEmpty then Property.ofName? key else Property.ofPair? key (rest.drop 1)
  property.map fun property =>
    complementIf (negated ^^ inverted ^^ unequal) (foldedIf caseInsensitive (having property))

end CharClass

end Highlighter.Regex

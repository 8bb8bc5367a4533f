import Highlighter.Regex.Expr
import Highlighter.Regex.Problem
import Highlighter.Text.Cursor

/-!
# Escapes

An escape is a backslash with what belongs to it. Reading one yields what it stands for
and how many characters behind the backslash it takes. Some letters have a meaning
outside bracket expressions only; inside they stand for themselves.

Three escapes of the language of patterns are not read: `\K`, which forgets what has been
matched so far, `\G`, which holds where the search began, and back references that count
groups from where they stand, such as `\k<-1>`. A pattern with one of them is refused as
malformed here, although it is well formed, so nothing is said about what it matches.
-/

namespace Highlighter.Regex.Escape

open Text (byteLength)

/-- What an escape stands for. -/
inductive Meaning where
  /-- A character; whether case may be disregarded for it. -/
  | character (character : Char) (folds : Bool)
  /-- A set of characters; nothing if its name is unknown. -/
  | set (members : Option CharClass)
  | condition (assertion : Assertion)
  /-- A back reference by number. -/
  | number (group : Nat)
  /-- A back reference by name. -/
  | name (name : String)

/-- A decimal digit of ASCII. -/
def isDigit (character : Char) : Bool := '0' ≤ character && character ≤ '9'

/-- A hexadecimal digit. -/
def isHexDigit (character : Char) : Bool := CharClass.hexDigit.contains character

/-- A character that group names are made of. -/
def isNameCharacter (character : Char) : Bool :=
  Unicode.isAlphanumeric character || character = '_'

/-- Machine words hold numbers below this bound. -/
def wordBound : Nat := 0x10000000000000000

/-- The value of hexadecimal or decimal digits. -/
def value (base : Nat) (digits : List Char) : Nat :=
  digits.foldl (fun total digit =>
    let code := digit.toLower.toNat
    base * total + if code < 58 then code - 48 else code - 87) 0

/-- The decimal number that the text begins with, and how many digits it has. Nothing
without a digit or if the number fits no machine word. -/
def decimal? (rest : List Char) : Option (Nat × Nat) :=
  let digits := rest.takeWhile isDigit
  let number := value 10 digits
  if digits.isEmpty || wordBound ≤ number then none else some (number, digits.length)

/-- The name that the text begins with between the given delimiters, and how many
characters are taken. -/
def delimited? (opening closing : List Char) (rest : List Char) : Option (String × Nat) :=
  if opening.isPrefixOf rest then
    let name := (rest.drop opening.length).takeWhile isNameCharacter
    let further := rest.drop (opening.length + name.length)
    if name.isEmpty || !closing.isPrefixOf further then none
    else some (String.ofList name, opening.length + name.length + closing.length)
  else none

/-- The digits of a hexadecimal escape: as many as the letter asks for, or one to eight
in braces. The number counts the characters taken. -/
def hexDigits? (count : Nat) (rest : List Char) : Option (List Char × Nat) :=
  let plain := rest.take count
  if plain.length = count ∧ plain.all isHexDigit then some (plain, count)
  else match rest with
    | '\x7b' :: inner =>
      let digits := inner.takeWhile isHexDigit
      if digits.isEmpty || 8 < digits.length then none
      else if (inner.drop digits.length).head? = some '\x7d' then some (digits, digits.length + 2)
      else none
    | _ => none

/-- The character with the given code, unless the code belongs to no character. -/
def character? (code : Nat) : Option Char :=
  if code < 0xd800 ∨ (0xdfff < code ∧ code < 0x110000) then some (Char.ofNat code) else none

/-- Read a hexadecimal escape whose digits begin at the position. -/
def hexadecimal (count : Nat) (position : Nat) (rest : List Char) :
    Except Problem (Meaning × Nat) :=
  match hexDigits? count rest with
  | none => .error (.malformed position .hexDigits)
  | some (digits, taken) =>
    match character? (value 16 digits) with
    | none => .error (.malformed position .noCharacter)
    | some character => .ok (.character character true, taken)

/-- The characters up to a closing brace, and how many are taken with it. -/
def braced? (rest : List Char) : Option (List Char × Nat) :=
  let body := rest.takeWhile (· ≠ '\x7d')
  if body.length < rest.length then some (body, body.length + 1) else none

/-- Letters that have a meaning outside bracket expressions only. -/
def conditionOf? : Char → Option Assertion
  | 'A' => some .textStart
  | 'z' => some .textEnd
  | 'b' => some .wordBoundary
  | 'B' => some .notWordBoundary
  | '<' => some .wordStart
  | '>' => some .wordEnd
  | _ => none

/-- Letters that stand for a control character. -/
def controlOf? : Char → Option Char
  | 'a' => some '\x07'
  | 'b' => some '\x08'
  | 'f' => some '\x0c'
  | 'n' => some '\n'
  | 'r' => some '\r'
  | 't' => some '\t'
  | 'v' => some '\x0b'
  | 'e' => some '\x1b'
  | _ => none

/-- Letters that a bracket expression takes for themselves. -/
def plainInBrackets : List Char := ['k', 'A', 'z', 'B', 'K', 'G']

/-- The sets that have a letter of their own. A capital letter stands for the
complement. -/
def setOf? : Char → Option CharClass
  | 'd' => some (.having .digit)
  | 'D' => some (.complement (.having .digit))
  | 's' => some (.having .space)
  | 'S' => some (.complement (.having .space))
  | 'w' => some (.having .word)
  | 'W' => some (.complement (.having .word))
  | 'h' => some .hexDigit
  | 'H' => some (.complement .hexDigit)
  | _ => none

/-- How many digits the letter of a hexadecimal escape asks for. -/
def hexCount? : Char → Option Nat
  | 'x' => some 2
  | 'u' => some 4
  | 'U' => some 8
  | _ => none

/-- Read a property escape, given its letter and what follows it: one letter, or a name in
braces. -/
def property (caseInsensitive negated : Bool) (position : Nat) (first : Char)
    (rest : List Char) : Except Problem (Meaning × Nat) :=
  let set := CharClass.ofPropertyText? caseInsensitive negated
  if first = '\x7b' then
    match braced? rest with
    | some (body, taken) => .ok (.set (set body), taken + 2)
    | none => .error (.malformed position .unclosedProperty)
  else .ok (.set (set [first]), 2)

/-- The letter has no meaning behind a backslash. A bracket expression takes some such
letters for themselves. -/
def isUnknown (inBrackets : Bool) (letter : Char) : Bool :=
  letter.isAlpha && !(inBrackets && plainInBrackets.contains letter)

/-- Read an escape. The position is that of the backslash; `rest` begins behind it. The
number counts the characters taken from `rest`. The escapes `\K` and `\G` and relative back
references are refused. -/
def read (caseInsensitive inBrackets : Bool) (position : Nat) (rest : List Char) :
    Except Problem (Meaning × Nat) :=
  match rest with
  | [] => .error (.malformed position .trailingBackslash)
  | letter :: further =>
    let behind := position + 1 + letter.utf8Size
    if isDigit letter then
      match decimal? rest with
      | some (group, taken) => .ok (.number group, taken)
      | none => .error (.malformed (position + 1) .referenceNumber)
    else if letter = 'k' ∧ !inBrackets then
      let delimiters := if further.head? = some '\'' then (['\''], ['\'']) else (['<'], ['>'])
      match delimited? delimiters.1 delimiters.2 further with
      | some (name, taken) => .ok (.name name, taken + 1)
      | none => .error (.malformed behind .groupName)
    else match hexCount? letter, setOf? letter with
    | some count, _ =>
      (hexadecimal count behind further).map fun (meaning, taken) => (meaning, taken + 1)
    | none, some set => .ok (.set (some set), 1)
    | none, none =>
      let unknown := .malformed position (.unknownEscape (String.ofList ['\\', letter]))
      let meant := if inBrackets then none else conditionOf? letter
      match further with
      | first :: behindFirst =>
        if letter = 'p' ∨ letter = 'P' then
          property caseInsensitive (letter = 'P') position first behindFirst
        else if meant.isSome ∧ letter.isAlpha ∧ letter.toLower = 'b' ∧ first = '\x7b' then
          .error unknown
        else plain unknown meant letter
      | [] => plain unknown meant letter
where
  /-- A letter with a meaning of its own, or a character that stands for itself. -/
  plain (unknown : Problem) (meant : Option Assertion) (letter : Char) :
      Except Problem (Meaning × Nat) :=
    match meant, controlOf? letter with
    | some assertion, _ => .ok (.condition assertion, 1)
    | none, some control => .ok (.character control false, 1)
    | none, none =>
      if isUnknown inBrackets letter then .error unknown
      else .ok (.character letter false, 1)

end Highlighter.Regex.Escape

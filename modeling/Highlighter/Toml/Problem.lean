import Highlighter.Text.Quoted
import Highlighter.Text.Cursor

/-!
# Problems of a TOML text

A problem is a fault, the place where it was found, and the keys that lead to it. Places
are byte positions while a text is read; they are turned into lines and columns when the
problem is worded.
-/

namespace Highlighter.Toml

/-- What can be wrong with a TOML text, in itself or as a description of something. -/
inductive Fault where
  | unexpectedEnd
  | unexpectedCharacter (character : Char)
  | unterminatedText
  | lineEndInText
  | forbiddenCharacter (character : Char)
  | invalidEscape (character : Char)
  | invalidHexadecimal (character : Char)
  /-- A number that is not the code of a character. -/
  | invalidCode (code : Nat)
  | expected (expected found : String)
  | multilineKey
  /-- A dotted key leads through a value that is not a table. -/
  | extendedValue
  | bareText
  | invalidNumber
  | repeatedKey (key : String)
  | repeatedTable (name : String)
  | arrayOfTables
  | missingField (name : String)
  | unknownField (name : String) (known : List String)
  | wrongType (found expected : String)
  | wrongLength (length : Nat) (expected : String)
  deriving DecidableEq, Repr

/-- A fault with its surroundings. -/
structure Problem where
  fault : Fault
  /-- The byte position of the fault. -/
  position : Option Nat := none
  /-- The keys that lead to the fault, outermost first. -/
  path : List String := []
  deriving DecidableEq, Repr

/-- A character as it is shown in a message. -/
def shownCharacter (character : Char) : String :=
  match character with
  | '\t' => "\\t"
  | '\r' => "\\r"
  | '\n' => "\\n"
  | '\'' => "\\'"
  | '"' => "\\\""
  | '\\' => "\\\\"
  | other =>
    if 0x20 ≤ other.toNat ∧ other.toNat < 0x7f then String.ofList [other]
    else Text.codeEscape other

/-- A text between the marks that messages put around what they cite. -/
def cited (text : String) : String := "\x60" ++ text ++ "\x60"

/-- The wording of a fault. -/
def Fault.message : Fault → String
  | unexpectedEnd => "unexpected eof encountered"
  | unexpectedCharacter character =>
    "unexpected character found: " ++ cited (shownCharacter character)
  | unterminatedText => "unterminated string"
  | lineEndInText => "newline in string found"
  | forbiddenCharacter character =>
    "invalid character in string: " ++ cited (shownCharacter character)
  | invalidEscape character =>
    "invalid escape character in string: " ++ cited (shownCharacter character)
  | invalidHexadecimal character =>
    "invalid hex escape character in string: " ++ cited (shownCharacter character)
  | invalidCode code => "invalid escape value: " ++ cited (toString code)
  | .expected wanted found => "expected " ++ wanted ++ ", found " ++ found
  | multilineKey => "multiline strings are not allowed for key"
  | extendedValue => "dotted key attempted to extend non-table type"
  | bareText => "invalid TOML value, did you mean to use a quoted string?"
  | invalidNumber => "invalid number"
  | repeatedKey key => "duplicate key: " ++ cited key
  | repeatedTable name => "redefinition of table " ++ cited name
  | arrayOfTables => "table redefined as array"
  | missingField name => "missing field " ++ cited name
  | unknownField name known =>
    "unknown field " ++ cited name ++ ", expected one of " ++ ", ".intercalate (known.map cited)
  | wrongType found wanted => "invalid type: " ++ found ++ ", expected " ++ wanted
  | wrongLength length wanted =>
    "invalid length " ++ toString length ++ ", expected " ++ wanted

/-- The lines of a text without their line feeds. A line feed at the end of the text ends
its last line and begins no other. -/
def lines (text : List Char) : List (List Char) :=
  text.foldr (fun character lines =>
    if character = '\n' then [] :: lines
    else match lines with
      | [] => [[character]]
      | line :: others => (character :: line) :: others) []

/-- The line and column of a position, counted from one; columns count bytes. The line
holds its line feed; what lies behind the last line is the begin of one line more. -/
def lineAndColumn (position : Nat) (passed : Nat) : List (List Char) → Nat × Nat
  | [] => (passed + 1, 1)
  | line :: others =>
    let length := Text.byteLength line
    if position ≤ length then (passed + 1, position + 1)
    else lineAndColumn (position - (length + 1)) (passed + 1) others

namespace Problem

/-- The problem at a position, unless it has one already. -/
def near (position : Option Nat) (problem : Problem) : Problem :=
  { problem with position := problem.position.orElse fun _ => position }

/-- The problem as it is seen from outside of the given key. -/
def under (key : String) (problem : Problem) : Problem :=
  { problem with path := key :: problem.path }

/-- The wording of a problem of the given text. -/
def message (text : String) (problem : Problem) : String :=
  let path := if problem.path.isEmpty then ""
    else " for key " ++ cited (".".intercalate problem.path)
  let place := match problem.position with
    | none => ""
    | some position =>
      let (line, column) := lineAndColumn position 0 (lines text.toList)
      " at line " ++ toString line ++ " column " ++ toString column
  problem.fault.message ++ path ++ place

end Problem

end Highlighter.Toml

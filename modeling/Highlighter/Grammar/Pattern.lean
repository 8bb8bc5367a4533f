import Highlighter.Regex.Search

/-!
# Patterns

A `Pattern` is the text of a regular expression with the modes that hold for all of it.
It stays a plain value until it is compiled; only then is a malformed text discovered.
-/

namespace Highlighter

/-- Modes of a whole pattern. -/
structure Flags where
  caseInsensitive : Bool := false
  multiLine : Bool := false
  dotMatchesNewLine : Bool := false
  deriving DecidableEq, Repr

/-- The letters of the modes that are set, in a fixed order. -/
def Flags.letters (flags : Flags) : String :=
  (if flags.caseInsensitive then "i" else "") ++ (if flags.multiLine then "m" else "") ++
    (if flags.dotMatchesNewLine then "s" else "")

/-- Only the dot is changed: it matches a line feed too. -/
def Flags.dotAll : Flags := { dotMatchesNewLine := true }

/-- The text of a regular expression and its modes. -/
structure Pattern where
  source : String
  flags : Flags := {}
  deriving DecidableEq, Repr

namespace Pattern

/-- What may follow a keyword: a blank, a period, an opening brace or bracket, a closing
parenthesis or a semicolon. Anything else makes the keyword the begin of a longer word. -/
def keywordEnd : String := "(?=[ \\.\x7b\\[\\);])"

/-- The pattern of any of the given keywords as a whole word. Every keyword is itself the
text of a regular expression and is put in a group of its own. -/
def keywords (list : List String) : Pattern :=
  ⟨"\\b(" ++ "|".intercalate (list.map fun keyword => "(" ++ keyword ++ ")") ++ ")" ++
    keywordEnd, {}⟩

/-- A pattern without text stands for a category that a grammar leaves out. -/
def isEmpty (pattern : Pattern) : Bool := pattern.source.isEmpty

/-- The pattern with the text of another one behind its own. Its own modes hold for both;
those of the other are dropped. -/
def append (pattern other : Pattern) : Pattern :=
  ⟨pattern.source ++ other.source, pattern.flags⟩

instance : Append Pattern := ⟨append⟩

/-- The text that is compiled: modes enclose the whole pattern in a group. -/
def wrapped (pattern : Pattern) : String :=
  let letters := pattern.flags.letters
  if letters.isEmpty then pattern.source else "(?" ++ letters ++ ":" ++ pattern.source ++ ")"

/-- The limit on going back for a text of unknown length. -/
def defaultLimit : Nat := 1000000

/-- How often a search may go back for each byte of the text. A search visits every place
up to the next match, so its budget has to grow with the text. -/
def limitPerByte : Nat := 1000

/-- The limit on going back for searches in the given text. -/
def searchLimit (text : String) : Nat := max (text.utf8ByteSize * limitPerByte) defaultLimit

/-- Compile the pattern for searches that may go back as often as the limit says. -/
def compile (pattern : Pattern) (limit : Nat) : Except Regex.Problem Regex :=
  Regex.compile pattern.wrapped limit

end Pattern

end Highlighter

import Highlighter.Toml.Value.Reading

/-!
# Documents

A TOML text is a sequence of lines: headers, and keys with their values. A document keeps
them as sections in the order of the text. What the headers make of the sections is not
decided here.
-/

namespace Highlighter.Toml

/-- A header with the keys below it. -/
structure Section where
  /-- The byte position of the header. -/
  position : Nat
  /-- The parts of the header; none for the keys in front of the first header. -/
  header : List Key
  /-- The header stands in double brackets. -/
  array : Bool
  members : Members

/-- The header as it is called in messages. -/
def Section.name (unit : Section) : String := ".".intercalate (unit.header.map Key.name)

/-- A TOML text as its sections. -/
structure Document where
  sections : List Section

namespace Document

open Token (skipBlanks skipLines unexpected)

/-- The tokens behind the end of a line, which may hold a comment. -/
def behindLine (tokens : List Token) : Except Problem (List Token) :=
  let rest := match skipBlanks tokens with
    | ⟨_, .comment⟩ :: rest => rest
    | others => others
  match rest with
  | ⟨_, .newline⟩ :: rest => .ok rest
  | [⟨position, .finish⟩] => .ok [⟨position, .finish⟩]
  | others => .error (unexpected "newline" others)

/-- Read a closing bracket. -/
def closed (tokens : List Token) : Except Problem (List Token) :=
  match tokens with
  | ⟨_, .rightBracket⟩ :: rest => .ok rest
  | others => .error (unexpected (Token.Kind.description .rightBracket) others)

/-- Read a header behind its first bracket, which is at the given position. -/
def readHeader (position : Nat) (tokens : List Token) :
    Except Problem (Section × List Token) := do
  let (array, rest) := match tokens with
    | ⟨_, .leftBracket⟩ :: rest => (true, rest)
    | others => (false, others)
  let ((first, keys), rest) ← Key.readDotted (skipBlanks rest)
  let rest ← closed rest
  let rest ← if array then closed rest else pure rest
  return (⟨position, first :: keys, array, []⟩, ← behindLine rest)

/-- Read a key with its value into a section. -/
def readMember (unit : Section) (tokens : List Token) :
    Except Problem (Section × List Token) := do
  let ((first, keys), rest) ← Key.readDotted tokens
  match rest with
  | ⟨_, .equals⟩ :: rest =>
    let (value, rest) ← Value.read (skipBlanks rest)
    let rest ← behindLine rest
    return ({ unit with members := ← unit.members.insert first keys value }, rest)
  | others => throw (unexpected (Token.Kind.description .equals) others)

/-- Read lines up to the end of the tokens. `found` are the sections so far, the last one
first. A line takes a token, so fuel for each token does not run out. -/
def readLines : (fuel : Nat) → (found : List Section) → List Token →
    Except Problem (List Section)
  | 0, found, _ => .ok found.reverse
  | fuel + 1, found, tokens =>
    match skipLines tokens with
    | [] | [⟨_, .finish⟩] => .ok found.reverse
    | ⟨position, .leftBracket⟩ :: rest => do
      let (unit, rest) ← readHeader position rest
      readLines fuel (unit :: found) rest
    | others => do
      let (unit, earlier) := match found with
        | [] => (⟨0, [], false, []⟩, [])
        | unit :: earlier => (unit, earlier)
      let (unit, rest) ← readMember unit others
      readLines fuel (unit :: earlier) rest

/-- Read a TOML text. -/
def read (text : String) : Except Problem Document := do
  let tokens := Token.scan text
  return ⟨← readLines tokens.length [] tokens⟩

/-- The position of the last section. -/
def lastPosition? (document : Document) : Option Nat :=
  document.sections.getLast?.map Section.position

end Document

end Highlighter.Toml

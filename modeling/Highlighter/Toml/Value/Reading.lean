import Highlighter.Toml.Value

/-!
# Reading values

Keys and values are read from the front of the tokens of a text. An array may span lines
and hold comments; a table in braces stays on one line.

Where a token does not fit, a fault of the cutting counts before what was expected.
-/

namespace Highlighter.Toml

namespace Token

/-- The tokens behind blanks. -/
def skipBlanks (tokens : List Token) : List Token :=
  tokens.dropWhile fun token => token.kind = .blank

/-- The tokens behind blanks, comments and line ends. -/
def skipLines (tokens : List Token) : List Token :=
  tokens.dropWhile fun token =>
    token.kind = .blank || token.kind = .comment || token.kind = .newline

/-- The problem of finding the given tokens where something else was expected. -/
def unexpected (expected : String) : List Token → Problem
  | [] => ⟨.expected expected Kind.finish.description, none, []⟩
  | ⟨_, .fault problem⟩ :: _ => problem
  | ⟨position, kind⟩ :: _ => ⟨.expected expected kind.description, some position, []⟩

/-- The problem of finding the given tokens where a number had to go on. -/
def unfinished : List Token → Problem
  | [] => ⟨.invalidNumber, none, []⟩
  | ⟨_, .fault problem⟩ :: _ => problem
  | ⟨position, _⟩ :: _ => invalidNumber position

end Token

open Token (skipBlanks skipLines unexpected unfinished)

namespace Key

/-- Read a key without dots. -/
def read : List Token → Except Problem (Key × List Token)
  | ⟨position, .word letters⟩ :: rest => .ok (⟨String.ofList letters, position⟩, rest)
  | ⟨position, .text content false⟩ :: rest => .ok (⟨content, position⟩, rest)
  | ⟨position, .text _ true⟩ :: _ => .error ⟨.multilineKey, some position, []⟩
  | others => .error (unexpected "a table key" others)

/-- Read the parts of a key behind its first one, and the blanks behind them. A part and
the dot in front of it are tokens, so there are fewer parts than tokens. -/
def readBehind : (fuel : Nat) → List Token → Except Problem (List Key × List Token)
  | 0, tokens => .ok ([], tokens)
  | fuel + 1, tokens =>
    match skipBlanks tokens with
    | ⟨_, .period⟩ :: rest => do
      let (key, rest) ← read (skipBlanks rest)
      let (keys, rest) ← readBehind fuel rest
      return (key :: keys, rest)
    | others => .ok ([], others)

/-- Read a key with any number of dots, and the blanks behind it. -/
def readDotted (tokens : List Token) : Except Problem ((Key × List Key) × List Token) := do
  let (first, rest) ← read tokens
  let (keys, rest) ← readBehind (rest.length + 1) rest
  return ((first, keys), rest)

end Key

namespace Value

/-- Read an exponent behind its mark. It may be in the same word, or follow a plus sign as
a word of its own. -/
def readExponent (number place : Nat) (written : List Char) (tokens : List Token) :
    Except Problem (Int × List Token) := do
  let settle := fun (run : Digits) (rest : List Token) =>
    if run.rest.isEmpty then Except.ok (run.signed 10, rest)
    else .error (invalidNumber number)
  if written.isEmpty then
    let behind := match tokens with
      | ⟨_, .plus⟩ :: rest => rest
      | _ => tokens
    match behind with
    | ⟨place, .word word⟩ :: rest => settle (← Digits.read 10 ⟨false, true⟩ place word) rest
    | ⟨_, .fault problem⟩ :: _ => throw problem
    | _ => throw (invalidNumber number)
  else settle (← Digits.read 10 ⟨true, true⟩ place written) tokens

/-- Read a number with a fraction or an exponent. The value begins at `position` and the
word of its first part at `start`. The digits behind its point are a word of their own. -/
def readReal (position start : Nat) (word : List Char) (fraction : Option (Nat × List Char))
    (tokens : List Token) : Except Problem (Value × List Token) := do
  let whole ← Digits.read 10 ⟨true, false⟩ start word
  let (digits, place, suffix) ← match fraction with
    | none => pure ([], start + (word.length - whole.rest.length), whole.rest)
    | some (place, word) =>
      if whole.rest.isEmpty then
        let part ← Digits.read 10 ⟨false, true⟩ place word
        pure (part.digits, place + (word.length - part.rest.length), part.rest)
      else throw (invalidNumber start)
  let (exponent, rest) ← match suffix with
    | [] => pure (0, tokens)
    | mark :: written =>
      if mark = 'e' ∨ mark = 'E' then readExponent start (place + 1) written tokens
      else throw (invalidNumber start)
  match Digits.real? whole digits exponent with
  | some number => return (real position number, rest)
  | none => throw (invalidNumber start)

/-- Read a number whose first word has been taken from the tokens. The value begins at
`position` and the word at `start`, which differ if there is a plus sign. A value with a
point begins behind the point. -/
def readNumber (position start : Nat) (word : List Char) (tokens : List Token) :
    Except Problem (Value × List Token) := do
  let whole := fun (radix : Nat) (rules : Digits.Rules) (start : Nat) (word : List Char) => do
    return (integer position (← Digits.integer radix rules start word), tokens)
  let special := fun (number : Real) => return (real position number, tokens)
  match word with
  | '0' :: 'x' :: digits => whole 16 ⟨false, true⟩ (start + 2) digits
  | '0' :: 'o' :: digits => whole 8 ⟨false, true⟩ (start + 2) digits
  | '0' :: 'b' :: digits => whole 2 ⟨false, true⟩ (start + 2) digits
  | _ =>
    if word.contains 'e' || word.contains 'E' then readReal position start word none tokens
    else
      match tokens with
      | ⟨_, .fault problem⟩ :: _ => throw problem
      | ⟨_, .period⟩ :: ⟨place, .word fraction⟩ :: rest =>
        readReal place start word (some (place, fraction)) rest
      | ⟨_, .period⟩ :: rest => throw (unfinished rest)
      | _ =>
        match String.ofList word with
        | "inf" => special (.infinite false)
        | "-inf" => special (.infinite true)
        | "nan" | "-nan" => special .undefined
        | _ => whole 10 ⟨true, false⟩ start word

/-- Read a value that begins with a word. -/
def readWord (position : Nat) (word : List Char) (tokens : List Token) :
    Except Problem (Value × List Token) :=
  match String.ofList word with
  | "true" => .ok (boolean position true, tokens)
  | "false" => .ok (boolean position false, tokens)
  | name =>
    if name = "inf" ∨ name = "nan" ∨
        (word.head?.any fun first => first = '-' || first.isDigit) then
      readNumber position position word tokens
    else .error ⟨.bareText, some position, []⟩

mutual

/-- Read a value. Of two calls in a row at least one takes a token, so twice as much fuel
as there are tokens does not run out. -/
def readWith : (fuel : Nat) → List Token → Except Problem (Value × List Token)
  | fuel + 1, ⟨position, kind⟩ :: rest =>
    match kind with
    | .text content _ => .ok (text position content, rest)
    | .word word => readWord position word rest
    | .plus =>
      match rest with
      | ⟨start, .word word⟩ :: rest => readNumber position start word rest
      | others => .error (unfinished others)
    | .leftBracket => readElements fuel position [] rest
    | .leftBrace =>
      match skipBlanks rest with
      | ⟨_, .rightBrace⟩ :: rest => .ok (table position false [], rest)
      | others => readMembers fuel position [] others
    | .finish => .error ⟨.unexpectedEnd, some position, []⟩
    | other => .error (unexpected "a value" [⟨position, other⟩])
  | _, others => .error (unexpected "a value" others)

/-- Read the elements of an array up to its closing bracket. `found` are the elements so
far, the last one first. -/
def readElements :
    (fuel position : Nat) → (found : List Value) → List Token → Except Problem (Value × List Token)
  | 0, _, _, tokens => .error (unexpected "a right bracket" tokens)
  | fuel + 1, position, found, tokens =>
    match skipLines tokens with
    | ⟨_, .rightBracket⟩ :: rest => .ok (array position found.reverse, rest)
    | others =>
      match readWith fuel others with
      | .error problem => .error problem
      | .ok (element, rest) =>
        match skipLines rest with
        | ⟨_, .comma⟩ :: rest => readElements fuel position (element :: found) rest
        | ⟨_, .rightBracket⟩ :: rest => .ok (array position (element :: found).reverse, rest)
        | others => .error (unexpected "a right bracket" others)

/-- Read the members of a table up to its closing brace. -/
def readMembers :
    (fuel position : Nat) → (found : Members) → List Token → Except Problem (Value × List Token)
  | 0, _, _, tokens => .error (unexpected "a comma" tokens)
  | fuel + 1, position, found, tokens =>
    match Key.readDotted tokens with
    | .error problem => .error problem
    | .ok ((first, keys), ⟨_, .equals⟩ :: rest) =>
      match readWith fuel (skipBlanks rest) with
      | .error problem => .error problem
      | .ok (value, rest) =>
        match found.insert first keys value with
        | .error problem => .error problem
        | .ok members =>
          match skipBlanks rest with
          | ⟨_, .rightBrace⟩ :: rest => .ok (table position false members, rest)
          | ⟨_, .comma⟩ :: rest => readMembers fuel position members (skipBlanks rest)
          | others => .error (unexpected "a comma" others)
    | .ok (_, others) => .error (unexpected "an equals" others)

end

/-- Read a value from the front of the tokens. -/
def read (tokens : List Token) : Except Problem (Value × List Token) :=
  readWith (2 * tokens.length) tokens

end Value

end Highlighter.Toml

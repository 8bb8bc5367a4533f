import Highlighter.Toml.Problem
import Highlighter.Toml.Read

/-!
# Tokens of a TOML text

A text is cut into tokens before it is read. A fault of the cutting becomes the last
token, so that it counts only when everything before it has been read without a fault.

Positions are byte positions of the text as it stands. A carriage return in front of a
line feed belongs to the end of the line, and a byte order mark is passed over.
-/

namespace Highlighter.Toml

/-- A character and its byte position. -/
structure Letter where
  position : Nat
  character : Char

/-- The characters of a text, each line end as one line feed. -/
def letters (text : List Char) : List Letter :=
  let step := fun (state : Nat × List Letter) (character : Char) =>
    let (position, placed) := state
    let next := position + character.utf8Size
    match character, placed with
    | '\n', ⟨before, '\r'⟩ :: others => (next, ⟨before, '\n'⟩ :: others)
    | _, _ => (next, ⟨position, character⟩ :: placed)
  (text.foldl step (0, [])).2.reverse

/-- What a token is. -/
inductive Token.Kind where
  | newline | blank | comment | equals | period | comma | colon | plus
  | leftBrace | rightBrace | leftBracket | rightBracket
  /-- A run of letters, digits, hyphens and underscores. -/
  | word (letters : List Char)
  | text (content : String) (multiline : Bool)
  | fault (problem : Problem)
  /-- The end of the text. -/
  | finish
  deriving DecidableEq

/-- A token and the byte position where it begins. -/
structure Token where
  position : Nat
  kind : Token.Kind

namespace Token

/-- A token as it is called in messages. -/
def Kind.description : Kind → String
  | newline => "a newline"
  | blank => "whitespace"
  | comment => "a comment"
  | equals => "an equals"
  | period => "a period"
  | comma => "a comma"
  | colon => "a colon"
  | plus => "a plus"
  | leftBrace => "a left brace"
  | rightBrace => "a right brace"
  | leftBracket => "a left bracket"
  | rightBracket => "a right bracket"
  | word _ => "an identifier"
  | text _ false => "a string"
  | text _ true => "a multiline string"
  | fault problem => problem.fault.message
  | finish => "eof"

/-- A character of words. -/
def isWordCharacter (character : Char) : Bool :=
  character.isAlphanum || character = '-' || character = '_'

/-- A character that may stand in a comment: no control but the tab, except that the last
ASCII control counts as a character. -/
def isCommentCharacter (character : Char) : Bool :=
  character = '\t' || 0x20 ≤ character.toNat

/-- A character that may stand in quotes as itself. -/
def isTextCharacter (character : Char) : Bool :=
  isCommentCharacter character && character ≠ '\x7f'

/-- A space or a tab. -/
def isBlank (character : Char) : Bool := character = ' ' || character = '\t'

/-- A blank or a line feed. -/
def isSpace (character : Char) : Bool := isBlank character || character = '\n'

/-- The value of a hexadecimal digit. -/
def digitValue? (digit : Char) : Option Nat :=
  if digit.isDigit then some (digit.toNat - 48)
  else if 'a' ≤ digit ∧ digit ≤ 'f' then some (digit.toNat - 87)
  else if 'A' ≤ digit ∧ digit ≤ 'F' then some (digit.toNat - 55)
  else none

/-- Read hexadecimal digits that give the code of a character. `start` is the position of
the opening quote, and `position` that of the letter in front of the digits. -/
def code {bound : Nat} (start position : Nat) (count number : Nat) (items : List Letter)
    (within : items.length < bound) : Except Problem (Read Letter (List Char) bound) :=
  match count, items with
  | 0, rest =>
    if number.isValidChar then .ok ⟨[Char.ofNat number], rest, within⟩
    else .error ⟨.invalidCode number, some position, []⟩
  | _ + 1, [] => .error ⟨.unterminatedText, some start, []⟩
  | count + 1, digit :: rest =>
    match digitValue? digit.character with
    | none => .error ⟨.invalidHexadecimal digit.character, some digit.position, []⟩
    | some value =>
      code start position count (16 * number + value) rest (Nat.lt_of_succ_lt within)

/-- Read what follows a backslash: the characters that it stands for. At the end of a
line of several it stands for nothing, and neither do the blanks and lines behind it. -/
def escape {bound : Nat} (start : Nat) (multiline : Bool) (items : List Letter)
    (within : items.length < bound) : Except Problem (Read Letter (List Char) bound) :=
  match items with
  | [] => .error ⟨.unterminatedText, some start, []⟩
  | ⟨position, character⟩ :: rest =>
    have left : rest.length < bound := Nat.lt_of_succ_lt within
    match character with
    | '"' => .ok ⟨['"'], rest, left⟩
    | '\\' => .ok ⟨['\\'], rest, left⟩
    | 'b' => .ok ⟨['\x08'], rest, left⟩
    | 'f' => .ok ⟨['\x0c'], rest, left⟩
    | 'n' => .ok ⟨['\n'], rest, left⟩
    | 'r' => .ok ⟨['\r'], rest, left⟩
    | 't' => .ok ⟨['\t'], rest, left⟩
    | 'u' => code start position 4 0 rest left
    | 'U' => code start position 8 0 rest left
    | other =>
      let behind := rest.dropWhile fun letter => isBlank letter.character
      let endsLine := other = '\n' ||
        (isBlank other && behind.head?.all fun letter => letter.character = '\n')
      if multiline && endsLine then
        .ok ⟨[], rest.dropWhile fun letter => isSpace letter.character,
          Nat.lt_of_le_of_lt (length_dropWhile_le _ rest) left⟩
      else .error ⟨.invalidEscape other, some position, []⟩

/-- A text whose content has been kept in reverse order. -/
def settled (multiline : Bool) (content : List Char) : Kind :=
  .text (String.ofList content.reverse) multiline

/-- Read the rest of a text up to its closing quotes. Several lines end at three quotes,
and up to two more right behind them belong to the content. -/
def quotedRest {bound : Nat} (start : Nat) (quote : Char) (multiline : Bool)
    (content : List Char) (items : List Letter) (within : items.length < bound) :
    Except Problem (Read Letter Kind bound) :=
  match items with
  | [] => .error ⟨.unterminatedText, some start, []⟩
  | letter :: rest =>
    have left : rest.length < bound := Nat.lt_of_succ_lt within
    if letter.character = quote then
      if multiline then
        if (rest.take 2).map Letter.character = [quote, quote] then
          let rest := rest.drop 2
          let more := (rest.take 2).takeWhile fun letter => letter.character = quote
          .ok ⟨settled multiline (List.replicate more.length quote ++ content),
            rest.drop more.length, by simp only [rest, List.length_drop]; omega⟩
        else quotedRest start quote multiline (quote :: content) rest left
      else .ok ⟨settled multiline content, rest, left⟩
    else if letter.character = '\n' then
      if multiline then quotedRest start quote multiline ('\n' :: content) rest left
      else .error ⟨.lineEndInText, some letter.position, []⟩
    else if letter.character = '\\' ∧ quote = '"' then
      match escape start multiline rest (Nat.lt_succ_self _) with
      | .error problem => .error problem
      | .ok read =>
        quotedRest start quote multiline (read.value.reverse ++ content) read.rest
          (by have shorter := read.shorter; omega)
    else if isTextCharacter letter.character then
      quotedRest start quote multiline (letter.character :: content) rest left
    else .error ⟨.forbiddenCharacter letter.character, some letter.position, []⟩
termination_by items.length
decreasing_by
  all_goals simp only [List.length_cons]
  all_goals first | omega | (have shorter := read.shorter; omega)

/-- Read a text behind its first quote. Two quotes alone are an empty text. A line feed
right behind three quotes does not count. -/
def quoted {bound : Nat} (start : Nat) (quote : Char) (items : List Letter)
    (within : items.length < bound) : Except Problem (Read Letter Kind bound) :=
  have dropped : ∀ count, (items.drop count).length < bound := fun count => by
    simp only [List.length_drop]; omega
  match (items.take 2).takeWhile fun letter => letter.character = quote with
  | [] => quotedRest start quote false [] items within
  | [_] => .ok ⟨.text "" false, items.drop 1, dropped 1⟩
  | _ =>
    let lineEnd := (items.drop 2).head?.any fun letter => letter.character = '\n'
    let count := if lineEnd then 3 else 2
    quotedRest start quote true [] (items.drop count) (dropped count)

/-- Read one token behind its first letter. -/
def next {bound : Nat} (letter : Letter) (rest : List Letter) (within : rest.length < bound) :
    Except Problem (Read Letter Kind bound) :=
  let single := fun (kind : Kind) => Except.ok ⟨kind, rest, within⟩
  let run := fun (kind : Kind) (property : Char → Bool) =>
    Except.ok ⟨kind, rest.dropWhile fun letter => property letter.character,
      Nat.lt_of_le_of_lt (length_dropWhile_le _ rest) within⟩
  match letter.character with
  | '\n' => single .newline
  | '=' => single .equals
  | '.' => single .period
  | ',' => single .comma
  | ':' => single .colon
  | '+' => single .plus
  | '\x7b' => single .leftBrace
  | '\x7d' => single .rightBrace
  | '[' => single .leftBracket
  | ']' => single .rightBracket
  | ' ' | '\t' => run .blank isBlank
  | '#' => run .comment isCommentCharacter
  | '"' => quoted letter.position '"' rest within
  | '\'' => quoted letter.position '\'' rest within
  | other =>
    if isWordCharacter other then
      let word := (rest.takeWhile fun letter => isWordCharacter letter.character).map
        Letter.character
      run (.word (other :: word)) isWordCharacter
    else .error ⟨.unexpectedCharacter other, some letter.position, []⟩

/-- Cut letters into tokens. `found` are the tokens so far, the last one first, and
`length` is the position of the end of the text. -/
def all (length : Nat) (found : List Token) (items : List Letter) : List Token :=
  match items with
  | [] => (⟨length, .finish⟩ :: found).reverse
  | letter :: rest =>
    match next letter rest (Nat.lt_succ_self _) with
    | .error problem => (⟨letter.position, .fault problem⟩ :: found).reverse
    | .ok read => all length (⟨letter.position, read.value⟩ :: found) read.rest
termination_by items.length
decreasing_by have shorter := read.shorter; simp only [List.length_cons]; omega

/-- The tokens of a text. The last one is its end or a fault. -/
def scan (text : String) : List Token :=
  let placed := letters text.toList
  all text.utf8ByteSize [] (match placed with
    | ⟨_, '\ufeff'⟩ :: rest => rest
    | _ => placed)

end Token

end Highlighter.Toml

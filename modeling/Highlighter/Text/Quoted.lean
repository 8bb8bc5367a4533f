import Highlighter.Unicode.Category

/-!
# Quoted text

A text that is shown among other values stands in double quotes. Quotes and backslashes
inside get a backslash, and what cannot be seen is written by its code: controls, blanks
other than the space, marks that would join the character before them, and code points
without a character.
-/

namespace Highlighter.Text

/-- The hexadecimal digits of a number. -/
def hexadecimal (number : Nat) : String := String.ofList (Nat.toDigits 16 number)

/-- The character shows as itself. -/
def isVisible (character : Char) : Bool :=
  if character.toNat < 0x80 then 0x20 ≤ character.toNat && character.toNat < 0x7f
  else
    let category := Unicode.Category.of character
    !(category ∈ Unicode.Category.others || category ∈ Unicode.Category.separators ||
      category = .nonspacingMark || category = .enclosingMark)

/-- A character by its code. -/
def codeEscape (character : Char) : String :=
  "\\u\x7b" ++ hexadecimal character.toNat ++ "\x7d"

/-- A character as it is written between double quotes. -/
def quotedCharacter (character : Char) : String :=
  match character with
  | '"' => "\\\""
  | '\\' => "\\\\"
  | '\n' => "\\n"
  | '\r' => "\\r"
  | '\t' => "\\t"
  | '\x00' => "\\0"
  | other => if isVisible other then String.ofList [other] else codeEscape other

/-- A text in double quotes. -/
def quoted (text : String) : String :=
  "\"" ++ String.join (text.toList.map quotedCharacter) ++ "\""

/-- A path in double quotes. An apostrophe gets a backslash here. -/
def quotedPath (path : String) : String :=
  let shown := fun (character : Char) =>
    if character = '\'' then "\\'" else quotedCharacter character
  "\"" ++ String.join (path.toList.map shown) ++ "\""

end Highlighter.Text

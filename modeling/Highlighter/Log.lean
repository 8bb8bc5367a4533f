import Highlighter.Category
import Highlighter.Text.Quoted

/-!
# Messages

Operations tell what they do by messages, which are values like any other. Each message
has a level; a program shows those at or above the level it was asked for.
-/

namespace Highlighter

/-- How important a message is, the most important first. -/
inductive Level where
  | warn | info | debug | trace
  deriving DecidableEq, Repr

namespace Level

/-- The level as it is written in front of a message. -/
def word : Level → String
  | warn => "WARN"
  | info => "INFO"
  | debug => "DEBUG"
  | trace => "TRACE"

/-- The rank of a level; messages of higher rank are shown less often. -/
def rank : Level → Nat
  | warn => 0
  | info => 1
  | debug => 2
  | trace => 3

end Level

/-- Why something could not be read. -/
inductive ReadFailure where
  | notFound | isDirectory | notDirectory | invalidText | invalidName | nameTooLong
  deriving DecidableEq, Repr

/-- What an operation tells about its work. -/
inductive Message where
  | skipped (category : Category)
  | passed (category : Category) (count : Nat)
  | described (name : String) (keywords : Nat)
  | describedNothing (name : String)
  | registered (name : String)
  | replaced (name : String)
  | loaded (bytes : Nat) (filename : String)
  | rendered (bytes : Nat)
  | chosen (filename grammar : String)
  /-- The language of a grammar file is used, not the one named in addition. -/
  | overruled (declared named : String)
  /-- The arguments of a request. -/
  | requested (filename : String) (language grammarFile : Option String) (document : Bool)
  | unreadable (failure : ReadFailure)
  deriving DecidableEq, Repr

/-- The ending of a counted noun. -/
def plural (count : Nat) (ending : String) : String := if count = 1 then "" else ending

/-- An optional value as it is shown among the fields of a message. -/
def shownOption (shown : String → String) : Option String → String
  | none => "None"
  | some text => "Some(" ++ shown text ++ ")"

/-- A read failure as it is shown among the fields of a message. -/
def ReadFailure.field : ReadFailure → String
  | notFound => "Os \x7b code: 2, kind: NotFound, message: \"No such file or directory\" \x7d"
  | isDirectory => "Os \x7b code: 21, kind: IsADirectory, message: \"Is a directory\" \x7d"
  | notDirectory => "Os \x7b code: 20, kind: NotADirectory, message: \"Not a directory\" \x7d"
  | invalidText =>
    "Error \x7b kind: InvalidData, message: \"stream did not contain valid UTF-8\" \x7d"
  | invalidName =>
    "Error \x7b kind: InvalidInput, message: \"file name contained an unexpected NUL byte\" \x7d"
  | nameTooLong => "Os \x7b code: 36, kind: InvalidFilename, message: \"File name too long\" \x7d"

namespace Message

/-- The level of a message. -/
def level : Message → Level
  | describedNothing _ | overruled _ _ => .warn
  | chosen _ _ => .info
  | _ => .debug

/-- The message consists of fields only. Such a message belongs to the program's own
record of its work and not to what an operation tells its caller. -/
def fieldsOnly : Message → Bool
  | requested _ _ _ _ | unreadable _ => true
  | _ => false

/-- The wording of a message. -/
def text : Message → String
  | skipped category => "Skipping " ++ category.className ++ ": no pattern"
  | passed category count =>
    "Pass " ++ category.className ++ ": " ++ toString count ++ " match" ++ plural count "es"
  | described name keywords =>
    "Grammar " ++ name ++ " describes " ++ toString keywords ++ " keyword" ++ plural keywords "s"
  | describedNothing name =>
    "Grammar " ++ name ++ " describes no patterns; nothing will be highlighted"
  | registered name => "Registering grammar " ++ name
  | replaced name => "Replacing grammar " ++ name
  | loaded bytes filename => "Loaded " ++ toString bytes ++ " bytes from " ++ filename
  | rendered bytes => "Rendered document of " ++ toString bytes ++ " bytes"
  | chosen filename grammar => "Highlighting " ++ filename ++ " as " ++ grammar
  | overruled declared named =>
    "Using grammar file's language " ++ declared ++ " rather than --language " ++ named
  | requested filename language grammarFile document =>
    "filename=" ++ Text.quotedPath filename ++ " language=" ++
      shownOption Text.quoted language ++ " grammar_file=" ++
      shownOption Text.quotedPath grammarFile ++ " as_document=" ++
      (if document then "true" else "false")
  | unreadable failure => "error=" ++ failure.field

/-- A message as a line of a log, without the line's end. -/
def line (message : Message) : String := message.level.word ++ " " ++ message.text

end Message

end Highlighter

/-!
# What can be wrong with a pattern

A pattern can be malformed, it can be well formed and still admit no matcher, and a
search with it can exceed one of its budgets. Each cause is a constructor; the wording is
in the `message` functions alone.
-/

namespace Highlighter.Regex

/-- Why a pattern text is malformed. -/
inductive Fault where
  /-- The text ends inside a group. -/
  | unclosedGroup
  /-- A closing parenthesis has no partner. -/
  | unopenedGroup
  /-- A repetition operator has nothing to repeat. -/
  | nothingToRepeat
  /-- The text ends inside a bracket expression, or the expression holds an escape that
  describes no characters. -/
  | malformedClass
  /-- The text ends with a backslash. -/
  | trailingBackslash
  /-- A letter that has no meaning behind a backslash; the escape is given as written. -/
  | unknownEscape (escape : String)
  /-- The number of a back reference is too large for the pattern. -/
  | referenceNumber
  /-- A group name is missing or not closed. -/
  | groupName
  /-- A back reference names no group. -/
  | unknownGroup (name : String)
  /-- A character that sets no mode; the text is given from the parenthesis on. -/
  | unknownMode (written : String)
  /-- The Unicode mode cannot be switched off. -/
  | unicodeOff
  /-- Hexadecimal digits are missing. -/
  | hexDigits
  /-- The hexadecimal digits give no character. -/
  | noCharacter
  /-- A property name is not closed. -/
  | unclosedProperty
  /-- Too many groups are open at once. -/
  | tooDeep
  deriving DecidableEq, Repr

/-- The wording of a fault. -/
def Fault.message : Fault → String
  | unclosedGroup => "Opening parenthesis without closing parenthesis"
  | unopenedGroup => "General parsing error: end of string not reached"
  | nothingToRepeat => "Target of repeat operator is invalid"
  | malformedClass => "Invalid character class"
  | trailingBackslash => "Backslash without following character"
  | unknownEscape escape => "Invalid escape: " ++ escape
  | referenceNumber => "Invalid back reference"
  | groupName => "Could not parse group name"
  | unknownGroup name => "Invalid group name in back reference: " ++ name
  | unknownMode written => "Unknown group flag: " ++ written
  | unicodeOff => "Disabling Unicode not supported"
  | hexDigits => "Invalid hex escape"
  | noCharacter => "Invalid codepoint for hex or unicode escape"
  | unclosedProperty => "Unicode escape not closed"
  | tooDeep => "Pattern too deeply nested"

/-- Why a well-formed pattern has no matcher. -/
inductive Obstacle where
  /-- What a lookbehind matches has no fixed length. -/
  | variableLookBehind
  /-- A back reference points to no group that begins before it. -/
  | unknownReference
  /-- Groups are named but referred to by number. -/
  | numberedReference
  /-- A set, a property or the bounds of a repetition make no sense. -/
  | malformedPart
  /-- The automaton would be too large. -/
  | tooLarge
  deriving DecidableEq, Repr

/-- The wording of an obstacle. -/
def Obstacle.message : Obstacle → String
  | variableLookBehind => "Look-behind assertion without constant size"
  | unknownReference => "Invalid back reference"
  | numberedReference =>
    "Numbered backref/call not allowed because named group was used, use a named backref instead"
  | malformedPart => "Regex error: error parsing pattern 0"
  | tooLarge => "Regex error: error building NFA"

/-- What a search may use up. -/
inductive Budget where
  /-- The number of times that it may go back. -/
  | steps
  /-- The number of alternatives that it may keep at one time. -/
  | stack
  deriving DecidableEq, Repr

/-- The wording of a budget that is used up. -/
def Budget.message : Budget → String
  | steps => "Max limit for backtracking count exceeded"
  | stack => "Max stack size exceeded for backtracking"

/-- What can go wrong with a pattern. -/
inductive Problem where
  /-- The text is malformed; the position counts bytes. -/
  | malformed (position : Nat) (fault : Fault)
  | unsupported (obstacle : Obstacle)
  /-- A search would have used more than it was allowed. -/
  | budgetExceeded {budget : Budget}
  deriving DecidableEq, Repr

/-- A search has used this budget up. -/
@[match_pattern]
abbrev Problem.exceeded (budget : Budget) : Problem := @budgetExceeded budget

/-- The wording of a problem. -/
def Problem.message : Problem → String
  | malformed position fault =>
    "Parsing error at position " ++ toString position ++ ": " ++ fault.message
  | unsupported obstacle => "Error compiling regex: " ++ obstacle.message
  | exceeded budget => "Error executing regex: " ++ budget.message

end Highlighter.Regex

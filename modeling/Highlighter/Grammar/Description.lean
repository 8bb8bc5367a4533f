import Highlighter.Grammar.Basic
import Highlighter.Log
import Highlighter.Toml.Node.Reading

/-!
# Descriptions of grammars

A grammar can be described by a TOML text: its name, the extensions of its files, its
keywords, and a table for each category with the text of a pattern and its modes. What is
left out of a description leaves its category out of the grammar.

A text that is not a description of this form is refused first. Of a description, the name
is looked at before the extensions, and these in order.
-/

namespace Highlighter

open Toml (Node Problem Key Document)

/-- Why a grammar could not be had from a file or text. -/
inductive GrammarError where
  | unreadable (details : String)
  | invalidDescription (details : String)
  | invalidName (name : String)
  | invalidExtension (extension : String)
  deriving DecidableEq, Repr

namespace GrammarError

/-- The failure in a few words. -/
def summary : GrammarError → String
  | unreadable _ => "unable to read grammar"
  | invalidDescription _ => "invalid grammar description"
  | invalidName name => "invalid language name '" ++ name ++ "'"
  | invalidExtension extension => "invalid file extension '" ++ extension ++ "'"

/-- The failure with its details. -/
def message (error : GrammarError) : String :=
  match error with
  | unreadable details | invalidDescription details => error.summary ++ ": " ++ details
  | invalidName _ | invalidExtension _ => error.summary

end GrammarError

namespace Pattern

/-- What a table for a category has told so far. -/
structure Draft where
  source : Option String := none
  flags : Flags := {}

/-- Take up one member of a table for a category. Members without a meaning are only gone
through. -/
def Draft.take (draft : Draft) (name : String) (node : Node) : Except Problem Draft :=
  match name with
  | "source" => do return { draft with source := some (← node.toText) }
  | "case_insensitive" => do
    return { draft with flags := { draft.flags with caseInsensitive := ← node.toTruth } }
  | "multi_line" => do
    return { draft with flags := { draft.flags with multiLine := ← node.toTruth } }
  | "dot_matches_new_line" => do
    return { draft with flags := { draft.flags with dotMatchesNewLine := ← node.toTruth } }
  | _ => do
    node.check
    return draft

/-- What is expected for a category, as it is called in messages. -/
def expected : String := "struct PatternDesc"

/-- The pattern of a table. -/
def ofMembers (position : Option Nat) (members : List (Key × Node)) (fault : Option Problem) :
    Except Problem Pattern := do
  let draft ← members.foldlM (fun draft (key, node) =>
    (Draft.take draft key.name node).mapError (Node.ofMember position key)) {}
  if let some problem := fault then throw problem
  match draft.source with
  | some source => return ⟨source, draft.flags⟩
  | none => throw ⟨.missingField "source", position, []⟩

/-- The pattern of an array, which gives the members of a table in a fixed order. Those at
the end may be left out. -/
def ofElements (elements : List Node) : Except Problem Pattern := do
  let truthAt (index : Nat) : Except Problem Bool :=
    match elements[index]? with
    | some node => node.toTruth
    | none => return false
  match elements with
  | [] => throw ⟨.wrongLength 0 (expected ++ " with 4 elements"), none, []⟩
  | first :: _ =>
    let source ← first.toText
    let flags : Flags := ⟨← truthAt 1, ← truthAt 2, ← truthAt 3⟩
    if 4 < elements.length then
      throw ⟨.wrongLength elements.length "4 elements in sequence", none, []⟩
    return ⟨source, flags⟩

/-- The pattern that a node describes. -/
def ofNode : Node → Except Problem Pattern
  | .table position members fault => ofMembers position members fault
  | .array elements => ofElements elements
  | other => .error (other.mismatch expected)

end Pattern

/-- A description of a grammar. -/
structure Description where
  name : String
  extensions : List String := []
  keywords : List String := []
  comments : Option Pattern := none
  numbers : Option Pattern := none
  literals : Option Pattern := none
  classes : Option Pattern := none
  identifiers : Option Pattern := none
  deriving DecidableEq, Repr

namespace Description

/-- The fields of a description. -/
def fields : List String :=
  ["name", "extensions", "keywords", "comments", "numbers", "literals", "classes",
   "identifiers"]

/-- Take up one field of a description. -/
def take (description : Description) (name : String) (node : Node) :
    Except Problem Description :=
  match name with
  | "name" => do return { description with name := ← node.toText }
  | "extensions" => do return { description with extensions := ← node.toTexts }
  | "keywords" => do return { description with keywords := ← node.toTexts }
  | "comments" => do return { description with comments := some (← Pattern.ofNode node) }
  | "numbers" => do return { description with numbers := some (← Pattern.ofNode node) }
  | "literals" => do return { description with literals := some (← Pattern.ofNode node) }
  | "classes" => do return { description with classes := some (← Pattern.ofNode node) }
  | "identifiers" => do return { description with identifiers := some (← Pattern.ofNode node) }
  | _ => return description

/-- The description that the members of a document give. The first problem in the order of
the text counts; a missing name is noticed last. -/
def ofMembers (members : List (Key × Node)) (fault : Option Problem) :
    Except Problem Description := do
  let description ← members.foldlM (fun description (key, node) =>
    if key.name ∈ fields then
      (take description key.name node).mapError (Problem.under key.name)
    else throw ⟨.unknownField key.name fields, none, []⟩) { name := "" }
  if let some problem := fault then throw problem
  if members.any fun member => member.1.name = "name" then return description
  else throw ⟨.missingField "name", none, []⟩

/-- The description in a TOML text. A problem without a place of its own is put to the
last table of the text. -/
def read (text : String) : Except Problem Description := do
  let document ← Document.read text
  let (members, fault) := document.contents
  (ofMembers members fault).mapError (Problem.near document.lastPosition?)

/-- A character of names and extensions behind their first one. -/
def isNameCharacter (character : Char) : Bool :=
  character.isLower || character.isDigit || character = '_' || character = '+' ||
    character = '-'

/-- A name begins with a lower case letter; lower case letters, digits and a few signs
may follow. All letters and digits are those of ASCII. -/
def isValidName (name : String) : Bool :=
  match name.toList with
  | [] => false
  | first :: others => first.isLower && others.all isNameCharacter

/-- An extension is made of letters of either case, digits and the signs of names. -/
def isValidExtension (extension : String) : Bool :=
  !extension.isEmpty && extension.toList.all fun character =>
    isNameCharacter character || character.isUpper

/-- The extensions of a description without the periods at their begin. -/
def trimmed : List String → Except GrammarError (List String)
  | [] => .ok []
  | extension :: others =>
    let bare := withoutDots extension
    if isValidExtension bare then (trimmed others).map (bare :: ·)
    else .error (.invalidExtension bare)

/-- The grammar of a description, if its name and extensions are valid. -/
def grammar (description : Description) : Except GrammarError Grammar := do
  if !isValidName description.name then throw (.invalidName description.name)
  let extensions ← trimmed description.extensions
  return {
    name := description.name
    extensions := extensions
    keywords := if description.keywords.isEmpty then none
      else some (Pattern.keywords description.keywords)
    comments := description.comments
    numbers := description.numbers
    literals := description.literals
    classes := description.classes
    identifiers := description.identifiers }

/-- What is told about a description whose grammar has been made. -/
def log (description : Description) (grammar : Grammar) : List Message :=
  .described grammar.name description.keywords.length ::
    if grammar.plan.all fun entry => entry.2.isNone then [.describedNothing grammar.name] else []

end Description

namespace Grammar

/-- The grammar that a TOML text describes, with what is told about it. -/
def parse (text : String) : Except GrammarError (Grammar × List Message) :=
  match Description.read text with
  | .error problem => .error (.invalidDescription (problem.message text))
  | .ok description => description.grammar.map fun grammar => (grammar, description.log grammar)

end Grammar

end Highlighter

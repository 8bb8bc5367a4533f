import Highlighter.Toml.Node

/-!
# Reading a tree

What a program takes from the tree of a document: texts, truth values and lists. A node
of another kind is a problem at the place of the node. Even what a program does not use is
gone through, because it may hold a fault.
-/

namespace Highlighter.Toml.Node

/-- A node as it is called in messages. -/
def description : Node → String
  | text _ content => "string " ++ Text.quoted content
  | integer _ number => "integer " ++ cited (toString number)
  | real _ number => "floating point " ++ cited number.text
  | boolean _ truth => "boolean " ++ cited (if truth then "true" else "false")
  | array _ => "sequence"
  | table _ _ _ => "map"

/-- The position that a node reports. -/
def position? : Node → Option Nat
  | text position _ | integer position _ | real position _ | boolean position _ => some position
  | array _ => none
  | table position _ _ => position

/-- The problem of finding the node where something else was expected. -/
def mismatch (expected : String) (node : Node) : Problem :=
  ⟨.wrongType node.description expected, node.position?, []⟩

/-- A problem of a member, as it is seen from the table at the given position. -/
def ofMember (position : Option Nat) (key : Key) (problem : Problem) : Problem :=
  if position.isNone then problem.under key.name else problem.near position

/-- The text of a node. -/
def toText : Node → Except Problem String
  | text _ content => .ok content
  | other => .error (other.mismatch "a string")

/-- The truth value of a node. -/
def toTruth : Node → Except Problem Bool
  | boolean _ truth => .ok truth
  | other => .error (other.mismatch "a boolean")

/-- The texts of an array. -/
def toTexts : Node → Except Problem (List String)
  | array elements => elements.mapM toText
  | other => .error (other.mismatch "a sequence")

mutual

/-- Go through a node for faults. -/
def check : Node → Except Problem Unit
  | array elements => checkElements elements
  | table position members fault => do
    checkMembers position members
    match fault with
    | some problem => throw problem
    | none => return ()
  | _ => .ok ()

/-- Go through the elements of an array for faults. -/
def checkElements : List Node → Except Problem Unit
  | [] => .ok ()
  | element :: others => do
    check element
    checkElements others

/-- Go through the members of a table for faults. -/
def checkMembers (position : Option Nat) : List (Key × Node) → Except Problem Unit
  | [] => .ok ()
  | (key, node) :: others => do
    (check node).mapError (ofMember position key)
    checkMembers position others

end

end Highlighter.Toml.Node

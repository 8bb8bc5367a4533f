import Highlighter.Toml.Number

/-!
# Values of a TOML text

A value keeps the byte position where it begins. A table is written in braces, or it
grows out of dotted keys; only the latter can grow further.
-/

namespace Highlighter.Toml

/-- A key and its byte position. -/
structure Key where
  name : String
  position : Nat
  deriving DecidableEq, Repr

/-- What is written behind a key. -/
inductive Value where
  | text (position : Nat) (content : String)
  | integer (position : Nat) (number : Int)
  | real (position : Nat) (number : Real)
  | boolean (position : Nat) (truth : Bool)
  | array (position : Nat) (elements : List Value)
  | table (position : Nat) (dotted : Bool) (members : List (Key × Value))

/-- Where the value begins. A table of dotted keys begins where its first value does. -/
def Value.position : Value → Nat
  | text position _ | integer position _ | real position _ | boolean position _
  | array position _ | table position _ _ => position

/-- The members of a table in order. -/
abbrev Members := List (Key × Value)

namespace Members

/-- The value of a dotted key as a member of its own. -/
def nested (value : Value) : List Key → Value
  | [] => value
  | key :: keys => .table value.position true [(key, nested value keys)]

/-- Put a value under a dotted key. A part of the key that is there already has to be a
table of dotted keys; the first member of that name counts. A key without dots is put
last, even if it is there. -/
def insert (key : Key) (keys : List Key) (value : Value) (members : Members) :
    Except Problem Members :=
  match keys with
  | [] => .ok (members ++ [(key, value)])
  | next :: behind =>
    match members.span fun member => member.1.name ≠ key.name with
    | (before, (present, .table position true inside) :: others) =>
      (insert next behind value inside).map fun inside =>
        before ++ (present, .table position true inside) :: others
    | (_, (_, existing) :: _) => .error ⟨.extendedValue, some existing.position, []⟩
    | (before, []) => .ok (before ++ [(key, nested value keys)])

end Members

end Highlighter.Toml

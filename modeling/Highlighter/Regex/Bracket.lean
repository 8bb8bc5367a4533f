import Highlighter.Regex.CharClass

/-!
# Bracket expressions

A bracket expression lists characters, ranges and classes between brackets. Brackets
nest, and `&&`, `--` and `~~` join the list on their left with the list on their right;
they all bind alike and to the left. The reader keeps the brackets that are still open
on a stack and consumes at least one item in each turn.
-/

namespace Highlighter.Regex.Bracket

/-- One item of a bracket expression, after escapes have been resolved. -/
inductive Item where
  /-- A character as it stands, which may carry meaning. -/
  | plain (character : Char)
  /-- A character that was escaped and stands for itself. -/
  | escaped (character : Char)
  /-- A class written as an escape; nothing if its name is unknown. -/
  | set (members : Option CharClass)
  deriving DecidableEq

/-- The operations on whole lists. -/
inductive Operation where
  | intersection | difference | symmetricDifference
  deriving DecidableEq

/-- The operation applied to two sets. -/
def Operation.apply : Operation → CharClass → CharClass → CharClass
  | intersection => .intersection
  | difference => .difference
  | symmetricDifference => .symmetricDifference

/-- What has been read of one pair of brackets. -/
structure Level where
  /-- The list is negated by a leading caret. -/
  negated : Bool
  /-- An operation and its left side, which wait for the right side. -/
  waiting : Option (Operation × CharClass)
  /-- The list read so far. -/
  listed : CharClass

namespace Level

/-- The level with one more set in its list. -/
def add (level : Level) (set : CharClass) : Level :=
  { level with listed := .union level.listed set }

/-- The set so far, with the operation that waits for it applied. Without regard to case
both sides are closed before they are joined. -/
def joined (caseInsensitive : Bool) (level : Level) : CharClass :=
  match level.waiting with
  | none => level.listed
  | some (operation, left) =>
    operation.apply (left.foldedIf caseInsensitive) (level.listed.foldedIf caseInsensitive)

/-- Begin the right side of an operation. -/
def join (caseInsensitive : Bool) (operation : Operation) (level : Level) : Level :=
  { level with waiting := some (operation, level.joined caseInsensitive), listed := .nothing }

/-- The set that the brackets describe: case is disregarded first, then the caret
applies. -/
def close (caseInsensitive : Bool) (level : Level) : CharClass :=
  ((level.joined caseInsensitive).foldedIf caseInsensitive).complementIf level.negated

end Level

/-- How many hyphens open the list, which stand for themselves. -/
def leadingHyphens (items : List Item) : Nat :=
  (items.takeWhile (· = .plain '-')).length

/-- What stands between an opening bracket and the list proper: a caret, hyphens, or a
closing bracket that stands for itself. The second part counts the items. -/
def openLevel (items : List Item) : Level × Nat :=
  let (negated, caret) := if items.head? = some (.plain '^') then (true, 1) else (false, 0)
  let rest := items.drop caret
  let hyphens := leadingHyphens rest
  let level : Level := ⟨negated, none, .nothing⟩
  if hyphens > 0 then (level.add (.single '-'), caret + hyphens)
  else if rest.head? = some (.plain ']') then (level.add (.single ']'), caret + 1)
  else (level, caret)

/-- The plain letters before the first colon. -/
def letters (items : List Item) : List Char :=
  (items.takeWhile fun item => item ≠ .plain ':').filterMap fun
    | .plain character => some character
    | _ => none

/-- A named class, read from what follows its opening bracket, with the number of items
read. If it is none, the bracket opens a nested list. -/
def named? (caseInsensitive : Bool) (items : List Item) : Option (CharClass × Nat) :=
  match items with
  | .plain ':' :: rest =>
    let (negated, caret) := if rest.head? = some (.plain '^') then (true, 1) else (false, 0)
    let name := letters (rest.drop caret)
    let ending := (rest.drop caret).drop name.length
    if ending.take 2 = [.plain ':', .plain ']'] then
      (CharClass.posix.lookup (String.ofList name)).map fun set =>
        ((set.foldedIf caseInsensitive).complementIf negated, 1 + caret + name.length + 2)
    else none
  | _ => none

/-- The end of a range, read from what follows its first character: a hyphen counts if
neither a closing bracket nor a second hyphen follows it. -/
def rangeEnd? : List Item → Option Item
  | .plain '-' :: last :: _ =>
    if last = .plain ']' || last = .plain '-' then none else some last
  | _ => none

/-- The character that an item can give to a range. -/
def Item.character? : Item → Option Char
  | plain character => some character
  | escaped character => some character
  | set _ => none

/-- A single member of a list or a range of members, with the number of further items
that it takes. Nothing if it is malformed. -/
def member? (first : Item) (rest : List Item) : Option (CharClass × Nat) :=
  match rangeEnd? rest with
  | some last => do
    let low ← first.character?
    let high ← last.character?
    if low ≤ high then some (.range low high, 2) else none
  | none =>
    match first with
    | .plain character => some (.single character, 0)
    | .escaped character => some (.single character, 0)
    | .set members => members.map (·, 0)

/-- The operation that two equal characters stand for. -/
def operation? (first : Item) (rest : List Item) : Option Operation :=
  if rest.head? = some first then
    [(Item.plain '&', Operation.intersection), (.plain '-', .difference),
     (.plain '~', .symmetricDifference)].lookup first
  else none

/-- Read the rest of a bracket expression. The levels are those of the open brackets, the
innermost first. Nothing if the expression is malformed. -/
def read? (caseInsensitive : Bool) (level : Level) (outer : List Level) :
    List Item → Option CharClass
  | [] => none
  | first :: rest =>
    if first = .plain '[' then
      match named? caseInsensitive rest with
      | some (set, taken) => read? caseInsensitive (level.add set) outer (rest.drop taken)
      | none =>
        let (inner, taken) := openLevel rest
        read? caseInsensitive inner (level :: outer) (rest.drop taken)
    else if first = .plain ']' then
      let set := level.close caseInsensitive
      match outer with
      | [] => if rest.isEmpty then some set else none
      | enclosing :: others => read? caseInsensitive (enclosing.add set) others rest
    else match operation? first rest with
      | some operation =>
        read? caseInsensitive (level.join caseInsensitive operation) outer (rest.drop 1)
      | none =>
        match member? first rest with
        | some (set, taken) => read? caseInsensitive (level.add set) outer (rest.drop taken)
        | none => none
termination_by items => items.length
decreasing_by all_goals (simp only [List.length_cons, List.length_drop]; omega)

/-- The set that a bracket expression describes, given the items behind its opening
bracket. Nothing if the expression is malformed. -/
def parse? (caseInsensitive : Bool) (items : List Item) : Option CharClass :=
  let (level, taken) := openLevel items
  read? caseInsensitive level [] (items.drop taken)

end Highlighter.Regex.Bracket

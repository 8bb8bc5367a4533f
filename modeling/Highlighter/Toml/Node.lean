import Highlighter.Toml.Document

/-!
# The tree of a document

Headers nest the sections of a document in each other. A section belongs to the table of
the first part of its header, there to the table of the second part, and so on; sections
of double brackets are the elements of an array. Tables list their members in the order
in which they come up in the text.

A fault in the order of sections, or a key that comes twice, ends the table in which it
is found. It counts for a reader of the tree who gets that far.
-/

namespace Highlighter.Toml

/-- A value of a document. -/
inductive Node where
  | text (position : Nat) (content : String)
  | integer (position : Nat) (number : Int)
  | real (position : Nat) (number : Real)
  | boolean (position : Nat) (truth : Bool)
  /-- An array does not report a position. -/
  | array (elements : List Node)
  /-- A table of headers has no position, but problems below it name the keys that lead to
  them. With a table that is a value it is the other way round. -/
  | table (position : Option Nat) (members : List (Key × Node)) (fault : Option Problem)

namespace Node

/-- The members of a table up to a fault. -/
abbrev Contents := List (Key × Node) × Option Problem

/-- Members before the first key that comes twice. `passed` are those that have been looked
at, the last one first. -/
def close (fault : Option Problem) (passed : List (Key × Node)) : List (Key × Node) → Contents
  | [] => (passed.reverse, fault)
  | (key, node) :: others =>
    if passed.any fun earlier => earlier.1.name = key.name then
      (passed.reverse, some ⟨.repeatedKey key.name, some key.position, []⟩)
    else close fault ((key, node) :: passed) others

/-- A table of members, which ends before a key that comes twice. -/
def ofContents (position : Option Nat) (contents : Contents) : Node :=
  let (members, fault) := close contents.2 [] contents.1
  .table position members fault

mutual

/-- The node of a value. -/
def ofValue : Value → Node
  | .text position content => .text position content
  | .integer position number => .integer position number
  | .real position number => .real position number
  | .boolean position truth => .boolean position truth
  | .array _ elements => .array (ofValues elements)
  | .table position _ members => ofContents (some position) (ofPairs members, none)

/-- The nodes of several values. -/
def ofValues : List Value → List Node
  | [] => []
  | value :: others => ofValue value :: ofValues others

/-- The nodes of keys with their values. -/
def ofPairs : List (Key × Value) → List (Key × Node)
  | [] => []
  | (key, value) :: others => (key, ofValue value) :: ofPairs others

end

/-- A section of a document with what is left of its header. -/
structure Placed where
  unit : Section
  remaining : List Key

/-- The section seen from inside of the table that the first part of its header names, if
that is the given name. -/
def Placed.enter? (name : String) (placed : Placed) : Option Placed :=
  match placed.remaining with
  | [] => none
  | key :: keys => if key.name = name then some ⟨placed.unit, keys⟩ else none

/-- The section begins an element of an array. -/
def Placed.beginsElement (placed : Placed) : Bool :=
  placed.unit.array && placed.remaining.isEmpty

/-- The sections inside of the table that the name leads to, seen from there. -/
def inside (name : String) (sections : List Placed) : List Placed :=
  sections.filterMap (Placed.enter? name)

/-- The sections outside of the table that the name leads to. -/
def outside (name : String) (sections : List Placed) : List Placed :=
  sections.filter fun placed => (placed.enter? name).isNone

/-- The sections up to one that begins an element of an array. -/
def withinElement (sections : List Placed) : List Placed :=
  sections.takeWhile fun placed => !placed.beginsElement

/-- The sections from the first one on that begins an element of an array. -/
def behindElement (sections : List Placed) : List Placed :=
  sections.dropWhile fun placed => !placed.beginsElement

/-- The total length of what is left of the headers, each counted with one more. -/
def weight (sections : List Placed) : Nat :=
  sections.foldr (fun placed total => placed.remaining.length + 1 + total) 0

theorem weight_cons (placed : Placed) (others : List Placed) :
    weight (placed :: others) = placed.remaining.length + 1 + weight others := rfl

/-- Sections that are left out take their weight with them. -/
theorem weight_le_of_sublist {fewer sections : List Placed} (left : fewer.Sublist sections) :
    weight fewer ≤ weight sections := by
  induction left with
  | slnil => exact Nat.le_refl _
  | cons placed _ induction => rw [weight_cons]; omega
  | cons_cons placed _ induction => rw [weight_cons, weight_cons]; omega

theorem weight_outside_le (name : String) (sections : List Placed) :
    weight (outside name sections) ≤ weight sections :=
  weight_le_of_sublist List.filter_sublist

theorem weight_withinElement_le (sections : List Placed) :
    weight (withinElement sections) ≤ weight sections :=
  weight_le_of_sublist (List.takeWhile_sublist _)

theorem weight_behindElement_le (sections : List Placed) :
    weight (behindElement sections) ≤ weight sections :=
  weight_le_of_sublist (List.dropWhile_sublist _)

/-- From inside of a table the headers are shorter. -/
theorem weight_inside_le (name : String) (sections : List Placed) :
    weight (inside name sections) ≤ weight sections := by
  induction sections with
  | nil => exact Nat.le_refl _
  | cons placed others induction =>
    unfold inside at induction ⊢
    rw [List.filterMap_cons, weight_cons]
    cases entered : placed.enter? name with
    | none => simp only; omega
    | some seen =>
      have shorter : seen.remaining.length ≤ placed.remaining.length := by
        unfold Placed.enter? at entered
        split at entered
        · simp at entered
        · rename_i remaining
          split at entered
          · simp only [Option.some.injEq] at entered
            subst entered
            simp [remaining]
          · simp at entered
      simp only [weight_cons]
      omega

/-- Put an entry in front of the members of a table. -/
def prepend (entries : List (Key × Node)) (contents : Contents) : Contents :=
  (entries ++ contents.1, contents.2)

mutual

/-- The members of the table that the given sections make up, up to a fault. `own` tells
that the section of the table itself has come up; there is only one, and it may not stand
in double brackets. Sections that share the next part of their headers are taken together
where the first of them stands. -/
def contents (own : Bool) (sections : List Placed) : Contents :=
  match sections with
  | [] => ([], none)
  | ⟨unit, []⟩ :: others =>
    if own then ([], some ⟨.repeatedTable unit.name, some unit.position, []⟩)
    else if unit.array then ([], some ⟨.arrayOfTables, some unit.position, []⟩)
    else prepend (ofPairs unit.members) (contents true others)
  | ⟨unit, key :: keys⟩ :: others =>
    let belonging : List Placed := ⟨unit, keys⟩ :: inside key.name others
    let node :=
      if unit.array ∧ keys.isEmpty then array (elements belonging)
      else ofContents none (contents false belonging)
    prepend [(key, node)] (contents own (outside key.name others))
termination_by 2 * weight sections
decreasing_by
  · rw [weight_cons]; omega
  · have inner := weight_inside_le key.name others
    simp only [weight_cons, List.length_cons]
    omega
  · have inner := weight_inside_le key.name others
    simp only [weight_cons, List.length_cons]
    omega
  · have outer := weight_outside_le key.name others
    rw [weight_cons, List.length_cons]
    omega

/-- The elements of an array of tables. Each begins with its section in double brackets,
and the sections up to the next one of these belong to it. -/
def elements (sections : List Placed) : List Node :=
  match sections with
  | [] => []
  | first :: others =>
    let unit := { first.unit with array := false }
    ofContents none (contents false (⟨unit, first.remaining⟩ :: withinElement others)) ::
      elements (behindElement others)
termination_by 2 * weight sections + 1
decreasing_by
  · have taken := weight_withinElement_le others
    simp only [weight_cons]
    omega
  · have left := weight_behindElement_le others
    rw [weight_cons]
    omega

end

end Node

/-- What stands at the top of a document. -/
def Document.contents (document : Document) : Node.Contents :=
  let (members, fault) :=
    Node.contents false (document.sections.map fun unit => ⟨unit, unit.header⟩)
  Node.close fault [] members

end Highlighter.Toml

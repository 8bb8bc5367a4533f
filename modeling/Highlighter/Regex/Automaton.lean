import Highlighter.Regex.Shape

/-!
# Automata that follow all choices at once

An `Automaton` has a state for every place of an expression that consumes a character. A
state lists, in the order of preference, the edges that can be taken after it. Matching
keeps the states reached so far in the order of preference, at most once each, and moves
all of them over the next character together; so the time is bounded by the length of the
text whatever the expression is. The match found is the one that trying the choices one
after another would find first.
-/

namespace Highlighter.Regex

open Text (Cursor)

/-- A step from one state: if the conditions hold, the search goes on in the target state,
or ends with a match if there is no target. -/
structure Edge where
  conditions : List Assertion
  target : Option Nat
  deriving DecidableEq, Repr

/-- A state consumes one character of its set and goes on by one of its edges. -/
structure Station where
  set : CharClass
  edges : List Edge
  deriving DecidableEq, Repr

/-- An automaton. States are known by their place in `stations`. -/
structure Automaton where
  start : List Edge
  stations : Array Station

/-- The frame of an automaton: an expression in which every place that consumes a
character has a number, and repetitions with bounds are written out. -/
inductive Frame where
  | empty
  | one (station : Nat) (set : CharClass)
  | assertion (assertion : Assertion)
  | sequence (first second : Frame)
  | either (first second : Frame)
  | optional (greedy : Bool) (body : Frame)
  /-- One or more repetitions. -/
  | many (greedy : Bool) (body : Frame)

namespace Frame

/-- Several copies of a frame one after another, each with numbers of its own. The
continuation follows the last copy. -/
def copies (copy : Nat → Frame × Nat) (last : Nat → Frame × Nat) : Nat → Nat → Frame × Nat
  | 0, fresh => last fresh
  | count + 1, fresh =>
    let (first, fresh) := copy fresh
    let (rest, fresh) := copies copy last count fresh
    (.sequence first rest, fresh)

/-- Up to a number of copies, of which each is optional. -/
def optionals (greedy : Bool) (copy : Nat → Frame × Nat) : Nat → Nat → Frame × Nat
  | 0, fresh => (.empty, fresh)
  | count + 1, fresh =>
    let (first, fresh) := copy fresh
    let (rest, fresh) := optionals greedy copy count fresh
    (.optional greedy (.sequence first rest), fresh)

/-- The frame of an expression, with its stations numbered from `fresh` on. The second
part is the next unused number. -/
def ofExpr : Expr → Nat → Frame × Nat
  | .empty, fresh | .look _ _ _, fresh | .reference _, fresh => (.empty, fresh)
  | .one set, fresh => (.one fresh (set.getD .nothing), fresh + 1)
  | .assertion condition, fresh => (.assertion condition, fresh)
  | .sequence first second, fresh =>
    let (first, fresh) := ofExpr first fresh
    let (second, fresh) := ofExpr second fresh
    (.sequence first second, fresh)
  | .either first second, fresh =>
    let (first, fresh) := ofExpr first fresh
    let (second, fresh) := ofExpr second fresh
    (.either first second, fresh)
  | .capture _ body, fresh | .group body, fresh | .atomic body, fresh => ofExpr body fresh
  | .repetition body least most greedy, fresh =>
    let copy := ofExpr body
    -- Repeating what consumes nothing adds nothing after the first time.
    let cap := fun count => if body.consumesNothing then min count 1 else count
    let many := fun fresh =>
      let (body, fresh) := copy fresh
      (.many greedy body, fresh)
    match most with
    | some most =>
      copies copy (optionals greedy copy (cap most - cap least)) (cap least) fresh
    | none =>
      match cap least with
      | 0 =>
        let (body, fresh) := many fresh
        (.optional greedy body, fresh)
      | count + 1 => copies copy many count fresh

/-- Put an alternative before or behind the others, as the repetition prefers. -/
def prefer (greedy : Bool) (more fewer : List Edge) : List Edge :=
  if greedy then more ++ fewer else fewer ++ more

/-- The edges into a frame. `rest` are the edges behind it, which are taken at once where
the frame needs no character. -/
def entries : Frame → List Edge → List Edge
  | empty, rest => rest
  | one station _, _ => [⟨[], some station⟩]
  | assertion condition, rest =>
    rest.map fun edge => { edge with conditions := condition :: edge.conditions }
  | sequence first second, rest => first.entries (second.entries rest)
  | either first second, rest => first.entries rest ++ second.entries rest
  | optional greedy body, rest => prefer greedy (body.entries rest) rest
  | many _ body, rest => body.entries rest

/-- The stations of a frame in the order of their numbers. `rest` are the edges behind the
frame. A repetition begins again or goes on behind; begun again, it must consume. -/
def stations : Frame → List Edge → List Station
  | empty, _ | assertion _, _ => []
  | one _ set, rest => [⟨set, rest⟩]
  | sequence first second, rest =>
    first.stations (second.entries rest) ++ second.stations rest
  | either first second, rest => first.stations rest ++ second.stations rest
  | optional _ body, rest => body.stations rest
  | many greedy body, rest => body.stations (prefer greedy (body.entries []) rest)

end Frame

namespace Automaton

/-- The edge that ends with a match. -/
def finish : List Edge := [⟨[], none⟩]

/-- The automaton of an expression. -/
def ofExpr (expression : Expr) : Automaton :=
  let frame := (Frame.ofExpr expression 0).1
  ⟨frame.entries finish, (frame.stations finish).toArray⟩

variable {text : List Char}

/-- A search that has come to a place by some edges still to be tried, and where its match
would begin. -/
structure Thread (text : List Char) where
  edges : List Edge
  origin : Cursor text

/-- What trying edges at one place has led to: the stations that consume the next
character, the last first, with a set of their numbers, and the origin of the match if one
ends here. -/
structure Front (text : List Char) where
  reached : List (Nat × Cursor text) := []
  members : Nat := 0
  ended : Option (Cursor text) := none

/-- Try the edges of one thread in order. A station is entered if it takes the next
character and no earlier edge has entered it. A match that ends here makes all later
edges and threads irrelevant. -/
def follow (automaton : Automaton) (here : Cursor text) (upcoming : Option Char)
    (origin : Cursor text) : List Edge → Front text → Front text
  | [], front => front
  | edge :: others, front =>
    if edge.conditions.all (·.holds here) then
      match edge.target with
      | none => { front with ended := some origin }
      | some station =>
        let enters := match upcoming, automaton.stations[station]? with
          | some character, some found =>
            !front.members.testBit station && found.set.contains character
          | _, _ => false
        let front := if enters then
            { front with
              reached := (station, origin) :: front.reached
              members := front.members ||| (1 <<< station) }
          else front
        automaton.follow here upcoming origin others front
    else automaton.follow here upcoming origin others front

/-- Try the threads in the order of preference. -/
def advance (automaton : Automaton) (here : Cursor text) (upcoming : Option Char) :
    List (Thread text) → Front text → Front text
  | [], front => front
  | thread :: others, front =>
    let front := automaton.follow here upcoming thread.origin thread.edges front
    if front.ended.isSome then front else automaton.advance here upcoming others front

/-- Go through the text. `best` is the match found so far, which only a preferred thread
can replace. Without a match, and unless the search is anchored, a new thread begins at
every place behind all others. -/
def search (automaton : Automaton) (anchored : Bool) (threads : List (Thread text))
    (best : Option (Cursor text × Cursor text)) (here : Cursor text) :
    Option (Cursor text × Cursor text) :=
  let threads :=
    if best.isNone && !anchored then threads ++ [⟨automaton.start, here⟩] else threads
  match _stepped : here.next? with
  | none =>
    match (automaton.advance here none threads {}).ended with
    | some origin => some (origin, here)
    | none => best
  | some (character, further) =>
    let front := automaton.advance here (some character) threads {}
    let best := match front.ended with
      | some origin => some (origin, here)
      | none => best
    if front.reached.isEmpty && (anchored || best.isSome) then best
    else
      let threads := front.reached.reverse.map fun (station, origin) =>
        ⟨((automaton.stations[station]?).map Station.edges).getD [], origin⟩
      automaton.search anchored threads best further
termination_by here.after.length
decreasing_by exact Cursor.length_after_of_next? _stepped

/-- The first match that begins at the given place or behind it: its begin and its end. -/
def find? (automaton : Automaton) (place : Cursor text) :
    Option (Cursor text × Cursor text) :=
  automaton.search false [] none place

/-- The end of the match that begins at the given place. -/
def match? (automaton : Automaton) (place : Cursor text) : Option (Cursor text) :=
  (automaton.search true [⟨automaton.start, place⟩] none place).map Prod.snd

end Automaton

end Highlighter.Regex

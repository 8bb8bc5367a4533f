import Highlighter.Regex.Automaton

/-!
# The machine that goes back to earlier choices

Expressions with lookarounds, atomic groups or references are matched by trying their
choices one after another. `Code` is what the machine is given: parts without choices
that matter are automata or single characters, the rest says where choices arise.

The machine has a list of goals and a stack of saved alternatives. It works on the first
goal; when that fails, it goes back to the alternative saved last. Two limits keep a
search in bounds. Going back is counted, and a search that goes back more often than its
own limit allows is given up. The stack holds `stackLimit` alternatives, the same number
for every search and every text, and a search that would save one more is given up, too:
a greedy repetition saves one for each of its iterations, so it cannot go farther than
that.

Moves as such are not counted. A repetition without upper bound must consume in every
iteration that is not required, so each move makes the goals lighter.
-/

namespace Highlighter.Regex

open Text (Cursor)

/-- A program for the machine. -/
inductive Code where
  | skip
  | one (set : CharClass)
  | condition (assertion : Assertion)
  /-- A part that matches as its automaton says, in one way only. -/
  | part (automaton : Automaton)
  | sequence (first second : Code)
  | either (first second : Code)
  | repetition (body : Code) (least : Nat) (most : Option Nat) (greedy : Bool)
  | capture (group : Nat) (body : Code)
  | reference (group : Nat)
  /-- What lies ahead of the place the given number of characters back. The search goes on
  where it was. -/
  | look (back : Nat) (negated : Bool) (body : Code)
  | atomic (body : Code)

namespace Machine

/-- Where capture groups began and ended last. Group `n` begins at mark `2 * n` and ends
at mark `2 * n + 1`. -/
abbrev Marks (text : List Char) := List (Nat × Cursor text)

mutual

/-- What the machine has still to do, the first goal first. -/
inductive Goals (text : List Char) where
  | done
  | run (code : Code) (others : Goals text)
  /-- Begin another iteration or go on behind the repetition. `passed` iterations are
  over; the last one that was not required began at `since`. -/
  | iterate (body : Code) (least : Nat) (most : Option Nat) (greedy : Bool) (passed : Nat)
      (since : Option Nat) (others : Goals text)
  | mark (slot : Nat) (others : Goals text)
  /-- Return to a place, after a lookaround. -/
  | return (place : Cursor text) (others : Goals text)
  /-- Forget the alternatives saved since the given ones. -/
  | commit (saved : Saved text) (others : Goals text)
  /-- Fail, and forget the alternatives saved since the given ones. -/
  | refute (saved : Saved text)

/-- The alternatives to go back to, the last one first. -/
inductive Saved (text : List Char) where
  | none
  /-- With this one there are as many alternatives as `count` says. -/
  | alternative (count : Nat) (goals : Goals text) (here : Cursor text) (marks : Marks text)
      (earlier : Saved text)

end

/-- How many alternatives are saved. -/
def Saved.size {text : List Char} : Saved text → Nat
  | none => 0
  | alternative count .. => count

/-- Save one more alternative. -/
def Saved.push {text : List Char} (saved : Saved text) (goals : Goals text) (here : Cursor text)
    (marks : Marks text) : Saved text :=
  .alternative (saved.size + 1) goals here marks saved

/-- The alternatives that can be saved at one time. -/
def stackLimit : Nat := 1000000

/-- The state of the machine. -/
structure State (text : List Char) where
  goals : Goals text
  here : Cursor text
  marks : Marks text
  saved : Saved text

/-- How an attempt ends. -/
inductive Ending (text : List Char) where
  | matched (marks : Marks text) (here : Cursor text)
  /-- The first goal has failed; these alternatives are left. -/
  | failed (saved : Saved text)
  /-- An alternative was to be saved, and the stack was full. -/
  | overflown

/-- What a move leads to. -/
inductive Outcome (text : List Char) where
  | next (state : State text)
  | ended (ending : Ending text)

variable {text : List Char}

/-- The text that a group matched last. Nothing if it has not matched. -/
def captured? (marks : Marks text) (group : Nat) : Option (List Char) := do
  let first ← marks.lookup (2 * group)
  let last ← marks.lookup (2 * group + 1)
  return first.slice last

/-- Set a mark, in place of an earlier one for the same slot. -/
def setMark (marks : Marks text) (slot : Nat) (here : Cursor text) : Marks text :=
  (slot, here) :: marks.filter (·.1 ≠ slot)

/-- Pass the given characters if they are next. -/
def pass? (expected : List Char) (here : Cursor text) : Option (Cursor text) :=
  match expected with
  | [] => some here
  | character :: others =>
    match here.next? with
    | some (actual, further) => if actual = character then pass? others further else none
    | none => none

/-- Save some goals as an alternative and turn to others first, from a place on. -/
@[inline]
def State.save (state : State text) (alternative preferred : Goals text) (place : Cursor text) :
    Outcome text :=
  if state.saved.size < stackLimit then
    .next { state with
      goals := preferred
      here := place
      saved := state.saved.push alternative state.here state.marks }
  else .ended .overflown

/-- One move on the first goal. -/
@[inline]
def step (state : State text) : Outcome text :=
  let failed := Outcome.ended (.failed state.saved)
  match state.goals with
  | .done => .ended (.matched state.marks state.here)
  | .run .skip others => .next { state with goals := others }
  | .run (.one set) others =>
    match state.here.next? with
    | some (character, further) =>
      if set.contains character then .next { state with goals := others, here := further }
      else failed
    | none => failed
  | .run (.condition assertion) others =>
    if assertion.holds state.here then .next { state with goals := others } else failed
  | .run (.part automaton) others =>
    match automaton.match? state.here with
    | some further => .next { state with goals := others, here := further }
    | none => failed
  | .run (.sequence first second) others =>
    .next { state with goals := .run first (.run second others) }
  | .run (.either first second) others =>
    state.save (.run second others) (.run first others) state.here
  | .run (.repetition body least most greedy) others =>
    .next { state with goals := .iterate body least most greedy 0 none others }
  | .run (.capture group body) others =>
    .next { state with goals := .mark (2 * group) (.run body (.mark (2 * group + 1) others)) }
  | .run (.reference group) others =>
    match (captured? state.marks group).bind fun expected => pass? expected state.here with
    | some further => .next { state with goals := others, here := further }
    | none => failed
  | .run (.look distance false body) others =>
    match state.here.back? distance with
    | some place =>
      .next { state with goals := .run body (.return state.here others), here := place }
    | none => failed
  | .run (.look distance true body) others =>
    match state.here.back? distance with
    | some place => state.save others (.run body (.refute state.saved)) place
    | none => .next { state with goals := others }
  | .run (.atomic body) others =>
    .next { state with goals := .run body (.commit state.saved others) }
  | .iterate body least most greedy passed since others =>
    if passed < least ∧ most.all (passed < ·) then
      .next { state with
        goals := .run body (.iterate body least most greedy (passed + 1) since others) }
    else if most.any (· ≤ passed) then .next { state with goals := others }
    else if most.isNone ∧ since.any (state.here.index ≤ ·) then failed
    else
      let again := .run body
        (.iterate body least most greedy (passed + 1) (some state.here.index) others)
      if greedy then state.save others again state.here else state.save again others state.here
  | .mark slot others =>
    .next { state with goals := others, marks := setMark state.marks slot state.here }
  | .return place others => .next { state with goals := others, here := place }
  | .commit saved others => .next { state with goals := others, saved }
  | .refute saved => .ended (.failed saved)

end Machine

namespace Code

/-- A bound on the moves that running the code takes in one attempt, in a text of the given
length. -/
def weight (length : Nat) : Code → Nat
  | skip | one _ | condition _ | part _ | reference _ => 1
  | sequence first second | either first second =>
    first.weight length + second.weight length + 1
  | repetition body least most _ =>
    (most.getD (least + length + 2)) * (body.weight length + 1) + 2
  | capture _ body => body.weight length + 3
  | look _ _ body | atomic body => body.weight length + 2

end Code

namespace Machine

/-- How many iterations can still follow. Without an upper bound, those that are not
required must begin at later and later places. -/
def iterationsLeft (length least : Nat) (most : Option Nat) (passed : Nat)
    (since : Option Nat) : Nat :=
  match most with
  | some most => most - passed
  | none => (least - passed) + match since with
    | none => length + 2
    | some place => length + 1 - place

/-- A bound on the moves of an attempt at the goals. -/
def Goals.weight {text : List Char} : Goals text → Nat
  | done => 0
  | run code others => code.weight text.length + others.weight
  | iterate body least most _ passed since others =>
    iterationsLeft text.length least most passed since * (body.weight text.length + 1) + 1 +
      others.weight
  | mark _ others | «return» _ others | commit _ others => 1 + others.weight
  | refute _ => 1

variable {text : List Char}

/-- What is turned to first is what is worked on. -/
theorem goals_of_save {state further : State text} {alternative preferred : Goals text}
    {place : Cursor text} (moved : state.save alternative preferred place = .next further) :
    further.goals = preferred := by
  unfold State.save at moved
  split at moved
  · cases moved
    rfl
  · cases moved

/-- Every move makes the goals lighter. -/
theorem weight_lt_of_step {state further : State text} (moved : step state = .next further) :
    further.goals.weight < state.goals.weight := by
  obtain ⟨goals, here, marks, saved⟩ := state
  have bounded := here.index_le_length
  cases goals with
  | done => simp [step] at moved
  | run code others =>
    cases code with
    | skip =>
      simp only [step, Outcome.next.injEq] at moved
      subst moved
      simp [Goals.weight, Code.weight]
    | one set =>
      simp only [step] at moved
      split at moved
      · split at moved
        · cases moved
          simp [Goals.weight, Code.weight]
        · cases moved
      · cases moved
    | condition assertion =>
      simp only [step] at moved
      split at moved
      · cases moved
        simp [Goals.weight, Code.weight]
      · cases moved
    | part automaton =>
      simp only [step] at moved
      split at moved
      · cases moved
        simp [Goals.weight, Code.weight]
      · cases moved
    | sequence first second =>
      simp only [step, Outcome.next.injEq] at moved
      subst moved
      simp only [Goals.weight, Code.weight]
      omega
    | either first second =>
      rw [goals_of_save moved]
      simp only [Goals.weight, Code.weight]
      omega
    | repetition body least most greedy =>
      simp only [step, Outcome.next.injEq] at moved
      subst moved
      cases most <;> simp [Goals.weight, Code.weight, iterationsLeft, Nat.add_assoc]
    | capture group body =>
      simp only [step, Outcome.next.injEq] at moved
      subst moved
      simp only [Goals.weight, Code.weight]
      omega
    | reference group =>
      simp only [step] at moved
      split at moved
      · cases moved
        simp [Goals.weight, Code.weight]
      · cases moved
    | look distance negated body =>
      cases negated
      all_goals
        simp only [step] at moved
        split at moved
      · cases moved
        simp only [Goals.weight, Code.weight]
        omega
      · cases moved
      · rw [goals_of_save moved]
        simp only [Goals.weight, Code.weight]
        omega
      · cases moved
        simp only [Goals.weight, Code.weight]
        omega
    | atomic body =>
      simp only [step, Outcome.next.injEq] at moved
      subst moved
      simp only [Goals.weight, Code.weight]
      omega
  | iterate body least most greedy passed since others =>
    simp only [step] at moved
    split at moved
    · rename_i required
      cases moved
      have fewer : iterationsLeft text.length least most (passed + 1) since + 1 ≤
          iterationsLeft text.length least most passed since := by
        cases most <;> simp_all [iterationsLeft] <;> omega
      have scaled := Nat.mul_le_mul_right (body.weight text.length + 1) fewer
      rw [Nat.add_mul] at scaled
      simp only [Goals.weight]
      omega
    · split at moved
      · cases moved
        simp only [Goals.weight]
        omega
      · split at moved
        · cases moved
        · rename_i optional unfinished progressing
          have fewer : iterationsLeft text.length least most (passed + 1) (some here.index) + 1 ≤
              iterationsLeft text.length least most passed since := by
            cases most <;> cases since <;> simp_all [iterationsLeft] <;> omega
          have scaled := Nat.mul_le_mul_right (body.weight text.length + 1) fewer
          rw [Nat.add_mul] at scaled
          cases greedy <;> rw [goals_of_save moved] <;> simp only [Goals.weight] <;> omega
  | mark slot others =>
    simp only [step, Outcome.next.injEq] at moved
    subst moved
    simp [Goals.weight]
  | «return» place others =>
    simp only [step, Outcome.next.injEq] at moved
    subst moved
    simp [Goals.weight]
  | commit earlier others =>
    simp only [step, Outcome.next.injEq] at moved
    subst moved
    simp [Goals.weight]
  | refute earlier => simp [step] at moved

/-- Move until all goals are reached, one of them fails, or the stack is full. -/
def attempt (state : State text) : Ending text :=
  match _moved : step state with
  | .next further => attempt further
  | .ended ending => ending
termination_by state.goals.weight
decreasing_by exact weight_lt_of_step _moved

/-- How a search ends. -/
inductive Verdict (text : List Char) where
  | matched (marks : Marks text) (here : Cursor text)
  | failed
  /-- The limit on going back was reached. -/
  | exhausted
  /-- An alternative was to be saved, and the stack was full. -/
  | overflown

/-- Attempt the goals, and after every failure the alternative saved last, until an attempt
succeeds or no alternative is left. `limit` is how often the machine may go back. -/
def run (limit : Nat) (state : State text) : Verdict text :=
  match attempt state with
  | .matched marks here => .matched marks here
  | .overflown => .overflown
  | .failed .none => .failed
  | .failed (.alternative _ goals here marks earlier) =>
    match limit with
    | 0 => .exhausted
    | left + 1 => run left ⟨goals, here, marks, earlier⟩

/-- Search for the first match that begins at the place or behind it. The begin of the
match is kept in the marks of group zero. Every place that is passed over costs a step
back. -/
def search (limit : Nat) (code : Code) (place : Cursor text) : Verdict text :=
  let passing := Code.repetition (.one .anything) 0 none false
  run limit ⟨.run passing (.mark 0 (.run code .done)), place, [], .none⟩

end Machine

end Highlighter.Regex

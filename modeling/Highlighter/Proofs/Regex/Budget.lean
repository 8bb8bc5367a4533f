import Highlighter.Proofs.Regex.Matched
import Highlighter.Proofs.Regex.Search

/-!
# How often a search goes back

A search tries its code at one place after another, so a bound on the steps back of a single
try is not enough: a try that goes far ahead and fails may be repeated at every place. The
bounds are amortized. Each place owes what earlier tries have already spent on the text
ahead of it; a try is cheap if it costs no more than what the next place then owes, up to a
fixed rate for each character.

A search within its limit is given up only for its stack, so from such a bound a scan comes to
the end of its text, or the stack has no room for its program somewhere.
-/

namespace Highlighter.Regex

open Text (Cursor)

variable {text : List Char}

/-- The set of one character is decided by comparing. -/
theorem CharClass.contains_single_eq (only character : Char) :
    (single only).contains character = decide (character = only) := by
  rw [Bool.eq_iff_iff, decide_eq_true_iff]
  exact contains_single

namespace Code

/-- A set passes over its character and takes no step back. -/
theorem ends_one_of_next (set : CharClass) (spot : Spot text) {character : Char}
    {further : Cursor text} (stepped : spot.here.next? = some (character, further)) :
    (one set).ends spot = if set.contains character then [⟨spot.marks, further⟩] else [] := by
  by_cases contained : set.contains character <;> simp [ends, CharClass.ends, stepped, contained]

/-- At the end of the text a set matches nothing. -/
theorem ends_one_at_end (set : CharClass) (spot : Spot text) (ended : spot.here.next? = none) :
    (one set).ends spot = [] := by
  rw [ends, CharClass.ends, ended]
  rfl

/-- Repeating a set costs one step for each character, and one at the end; it can end behind
each of them. -/
theorem star_one_of_next {set : CharClass} {spot : Spot text} {character : Char}
    {further : Cursor text} (stepped : spot.here.next? = some (character, further))
    (contained : set.contains character) :
    starCost (one set).ends (one set).cost spot =
        starCost (one set).ends (one set).cost ⟨spot.marks, further⟩ + 1 ∧
      star Spot.here true (one set).ends spot =
        star Spot.here true (one set).ends ⟨spot.marks, further⟩ ++ [spot] := by
  have moved : spot.here.index < further.index := by
    have passed := Cursor.index_of_next? stepped
    omega
  constructor
  · rw [starCost, ends_one_of_next _ _ stepped, if_pos contained]
    simp [cost, moved]
  · rw [star, ends_one_of_next _ _ stepped, if_pos contained]
    simp [prefer, moved]

/-- Where no character of the set comes next, its repetition ends. -/
theorem star_one_stops {set : CharClass} {spot : Spot text} (none : (one set).ends spot = []) :
    starCost (one set).ends (one set).cost spot = 1 ∧
      star Spot.here true (one set).ends spot = [spot] := by
  constructor
  · rw [starCost, none]
    simp [cost]
  · rw [star, none]
    simp [prefer]

/-- A repetition that may be missing begins with its first optional round. -/
theorem cost_star (body : Code) (greedy : Bool) (spot : Spot text) :
    (repetition body 0 none greedy).cost spot = starCost body.ends body.cost spot ∧
      (repetition body 0 none greedy).ends spot = star Spot.here greedy body.ends spot := by
  constructor
  · simp [cost, timesCost, times]
  · simp [ends, Regex.repeated, times]

/-- What costs nothing may follow at no cost. -/
theorem cost_sequence_free {first second : Code} (free : ∀ spot : Spot text, second.cost spot = 0)
    (spot : Spot text) : (sequence first second).cost spot = first.cost spot := by
  have none : second.cost = fun _ : Spot text => 0 := funext free
  simp [cost, none]

/-- Behind a condition the others are tried only where it holds. -/
theorem cost_condition (assertion : Assertion) (second : Code) (spot : Spot text) :
    (sequence (condition assertion) second).cost spot =
      if assertion.holds spot.here then second.cost spot else 0 := by
  by_cases holds : assertion.holds spot.here <;> simp [cost, ends, holds]

/-- Behind a set the others are tried only where one of its characters was next. -/
theorem cost_one_of_next (set : CharClass) (second : Code) (spot : Spot text) {character : Char}
    {further : Cursor text} (stepped : spot.here.next? = some (character, further)) :
    (sequence (one set) second).cost spot =
      if set.contains character then second.cost ⟨spot.marks, further⟩ else 0 := by
  rw [cost, ends_one_of_next _ _ stepped]
  by_cases contained : set.contains character <;> simp [cost, contained]

/-- A set leaves one place at most, so a sequence that begins with it costs no more than the
others. -/
theorem cost_one_sequences_le {set : CharClass} {others : List Code} {bound : Nat}
    (bounded : ∀ spot : Spot text, (sequences others).cost spot ≤ bound) (spot : Spot text) :
    (sequences (one set :: others)).cost spot ≤ bound := by
  cases others with
  | nil => exact Nat.zero_le _
  | cons next others =>
    change 0 + (((one set).ends spot).map (sequences (next :: others)).cost).sum ≤ bound
    cases stepped : spot.here.next? with
    | none => simp [ends_one_at_end _ _ stepped]
    | some step =>
      obtain ⟨character, further⟩ := step
      rw [ends_one_of_next _ _ stepped]
      split
      · simpa using bounded ⟨spot.marks, further⟩
      · exact Nat.zero_le _

/-- Each alternative costs itself and one step to go on to the next. -/
theorem cost_alternatives_le {options : List Code} {bound : Nat} {spot : Spot text}
    (bounded : ∀ option ∈ options, option.cost spot ≤ bound) :
    (alternatives options).cost spot ≤ (bound + 1) * options.length := by
  induction options with
  | nil => exact Nat.zero_le _
  | cons option others induction =>
    have first := bounded option List.mem_cons_self
    have further := induction fun other listed => bounded other (List.mem_cons_of_mem _ listed)
    rw [List.length_cons, Nat.mul_add_one]
    cases others with
    | nil =>
      change option.cost spot ≤ _
      omega
    | cons next others =>
      change option.cost spot + (1 + (alternatives (next :: others)).cost spot) ≤ _
      omega

end Code

namespace Machine

/-- What a search costs, if each place owes what earlier tries have spent ahead of it.

Proof: induction over the places. A try that fails leaves to the next place a debt as large
as its own cost, up to the rate; the try that matches is paid by the rest of the text. -/
theorem search_cost_le {code : Code} (owed : Cursor text → Nat) (rate : Nat)
    (passing : ∀ (place further : Cursor text) (character : Char),
      place.next? = some (character, further) → code.ends (beginning place) = [] →
      code.cost (beginning place) + 1 + owed place ≤ rate + owed further)
    (stopping : ∀ place : Cursor text,
      code.cost (beginning place) + 1 + owed place ≤ rate * (place.after.length + 1))
    (place : Cursor text) :
    searchCost code place + owed place ≤ rate * (place.after.length + 1) := by
  generalize left : place.after.length = length
  induction length generalizing place with
  | zero =>
    have last := stopping place
    rw [left] at last
    have ended : place.next? = none :=
      (Cursor.next_none_iff place).mpr (List.eq_nil_of_length_eq_zero left)
    rw [searchCost]
    split
    · split <;> first | omega | simp_all
    · omega
  | succ length induction =>
    have last := stopping place
    rw [left] at last
    rw [searchCost]
    split
    · rename_i failed
      split
      · omega
      · rename_i character further stepped
        have tried := passing place further character stepped (List.isEmpty_iff.mp failed)
        have moved := ((Cursor.next_some_iff place further character).mp stepped).1
        have shorter : further.after.length = length := by
          have lengths := congrArg List.length moved
          rw [List.length_cons, left] at lengths
          omega
        have onward := induction further shorter
        rw [Nat.mul_add rate (length + 1) 1]
        omega
    · omega

end Machine

/-- A search that may go back as often as it can need is given up only if the stack has no room
for its program somewhere in the text. -/
theorem find_cases {regex : Regex} {expression : Expr} (stands : Stands regex expression)
    {place : Cursor text} (enough : ∀ code, regex.matcher = .machine code →
      Machine.searchCost code place ≤ regex.limit) :
    (∃ found, regex.find? place = .ok found) ∨
      regex.find? place = .error (.exceeded .stack) ∧
        ∃ code, regex.matcher = .machine code ∧ ¬ Machine.Roomy code text := by
  rcases find_first stands place with
    ⟨found, searched, _⟩ | ⟨code, made, _, ⟨_, short⟩ | ⟨overflown, full⟩⟩
  · exact .inl ⟨found, searched⟩
  · exact absurd (enough code made) (Nat.not_le_of_lt short)
  · exact .inr ⟨overflown, code, made, full⟩

/-- A scan from a place on comes to the end of its text, unless one of its searches is given up. -/
theorem Finds.given_up {regex : Regex} {previous : Option Nat} {settled place : Cursor text}
    {found : List Found} {rest : List Char} {problem : Option Problem}
    (finds : Finds regex previous settled place found rest problem) :
    problem = none ∨ ∃ cause, problem = some cause ∧
      ∃ place : Cursor text, regex.find? place = .error cause := by
  induction finds with
  | givenUp failed => exact .inr ⟨_, rfl, _, failed⟩
  | finished _ => exact .inl rfl
  | emptyAtEnd _ _ _ _ => exact .inl rfl
  | emptyWithin _ _ _ _ _ induction => exact induction
  | nonempty _ _ _ _ induction => exact induction

/-- A scan comes to the end of its text, unless one of its searches is given up. -/
theorem scan_given_up (regex : Regex) (text : List Char) :
    (regex.scan text).problem = none ∨ ∃ cause, (regex.scan text).problem = some cause ∧
      ∃ place : Cursor text, regex.find? place = .error cause :=
  (scan_finds regex text).given_up

/-- A scan whose searches all end comes to the end of its text. -/
theorem scan_ok {regex : Regex}
    (searched : ∀ place : Cursor text, ∃ found, regex.find? place = .ok found) :
    (regex.scan text).problem = none := by
  rcases scan_given_up regex text with ended | ⟨cause, _, place, failed⟩
  · exact ended
  · obtain ⟨found, ended⟩ := searched place
    rw [failed] at ended
    cases ended

end Highlighter.Regex

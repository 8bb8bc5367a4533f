import Highlighter.Proofs.Regex.Budget

/-!
# How much of the stack a search takes

`Code.load` bounds what a code and what follows it add to the stack. A single character adds
nothing, and a repetition that prefers to go on adds one alternative for each of its iterations.
So the bound grows with the text, while the stack does not.

It is not only the bound that grows. A repetition that has gone over as many characters as the
stack has places is given up, whatever would follow, and the search with it. `Overflows` says so
of a code at a place and is built up along the code.
-/

namespace Highlighter.Regex

open Text (Cursor)
open Machine (Goals Saved stackLimit verdict Leads)

variable {text : List Char}

namespace Code

/-! ### Loads -/

variable {needed : Spot text → Nat} {spot : Spot text}

/-- Behind a character the others add what they need there. -/
theorem load_one_of_next (set : CharClass) (needed : Spot text → Nat) {character : Char}
    {further : Cursor text} (stepped : spot.here.next? = some (character, further)) :
    (one set).load needed spot =
      if set.contains character then needed ⟨spot.marks, further⟩ else 0 := by
  rw [load, stepped]

/-- At the end of the text there is no character to pass. -/
theorem load_one_at_end (set : CharClass) (needed : Spot text → Nat)
    (ended : spot.here.next? = none) : (one set).load needed spot = 0 := by
  rw [load, ended]

/-- A character adds nothing itself. -/
theorem load_one_le (set : CharClass) {bound : Nat} (bounded : ∀ spot, needed spot ≤ bound)
    (spot : Spot text) : (one set).load needed spot ≤ bound := by
  cases stepped : spot.here.next? with
  | none =>
    rw [load_one_at_end set needed stepped]
    exact Nat.zero_le _
  | some step =>
    obtain ⟨character, further⟩ := step
    rw [load_one_of_next set needed stepped]
    split
    · exact bounded _
    · exact Nat.zero_le _

/-- A look at the next character adds nothing if nothing follows. -/
theorem load_ahead (set : CharClass) :
    (look 0 false (one set)).load (fun _ => 0) = fun _ : Spot text => 0 := by
  funext spot
  exact Nat.le_zero.mp (load_one_le set (fun _ => Nat.le_refl 0) _)

/-- To look that a sign is not next, one alternative is saved. -/
theorem load_not_ahead (sign : Char) (needed : Spot text → Nat) (spot : Spot text) :
    (look 0 true (one (.single sign))).load needed spot =
      max 1 (if spot.here.after.head? = some sign then 0 else needed spot) := by
  have nothing : (one (.single sign)).load (fun _ => 0) spot = 0 :=
    Nat.le_zero.mp (load_one_le _ (fun _ => Nat.le_refl 0) _)
  have missing : ((one (.single sign)).ends spot).isEmpty ↔ ¬ spot.here.after.head? = some sign := by
    cases stepped : spot.here.next? with
    | none => simp [ends_one_at_end _ _ stepped, (Cursor.next_none_iff spot.here).mp stepped]
    | some step =>
      obtain ⟨character, further⟩ := step
      obtain ⟨ahead, _⟩ := (Cursor.next_some_iff spot.here further character).mp stepped
      rw [ends_one_of_next _ _ stepped, CharClass.contains_single_eq, ahead]
      by_cases same : character = sign <;> simp [same]
  change max (1 + (one (.single sign)).load (fun _ => 0) spot)
    (if ((one (.single sign)).ends spot).isEmpty then needed spot else 0) = _
  rw [nothing, if_congr missing rfl rfl, ite_not]

/-- What the second part of a sequence needs is needed behind the first. -/
theorem load_sequence (first second : Code) (needed : Spot text → Nat) :
    (sequence first second).load needed = first.load (second.load needed) := rfl

/-- A repetition that may be missing begins with its first optional round. -/
theorem load_star (body : Code) (greedy : Bool) (needed : Spot text → Nat) :
    (repetition body 0 none greedy).load needed = starLoad body.load greedy needed := rfl

/-- Repeating a set adds an alternative for the character that is passed. -/
theorem star_load_one_of_next {set : CharClass} (needed : Spot text → Nat) {character : Char}
    {further : Cursor text} (stepped : spot.here.next? = some (character, further))
    (contained : set.contains character) :
    starLoad (one set).load true needed spot =
      max (1 + starLoad (one set).load true needed ⟨spot.marks, further⟩) (needed spot) := by
  have moved : spot.here.index < further.index := by
    have passed := Cursor.index_of_next? stepped
    omega
  rw [starLoad, load_one_of_next _ _ stepped, if_pos contained]
  simp [choiceLoad, eitherLoad, moved]

/-- Where no character of the set comes next, one alternative is saved for nothing. -/
theorem star_load_one_stops {set : CharClass} (needed : Spot text → Nat)
    (none : (one set).ends spot = []) :
    starLoad (one set).load true needed spot = max 1 (needed spot) := by
  have nothing (needed : Spot text → Nat) : (one set).load needed spot = 0 := by
    cases stepped : spot.here.next? with
    | none => exact load_one_at_end set needed stepped
    | some step =>
      obtain ⟨character, further⟩ := step
      rw [ends_one_of_next _ _ stepped] at none
      rw [load_one_of_next set needed stepped]
      split at none
      · cases none
      · rename_i missing
        exact if_neg missing
  rw [starLoad, nothing]
  simp [choiceLoad, eitherLoad]

/-- Behind a condition the others are tried only where it holds. -/
theorem load_condition_le (assertion : Assertion) (second : Code) (spot : Spot text) :
    (sequence (condition assertion) second).load needed spot ≤ second.load needed spot := by
  rw [load, load]
  split
  · exact Nat.le_refl _
  · exact Nat.zero_le _

/-- A sequence of characters adds nothing in front of what follows it. -/
theorem load_ones_le (sets : List CharClass) {others : List Code} {bound : Nat}
    (bounded : ∀ spot : Spot text, (sequences others).load needed spot ≤ bound)
    (least : ∀ spot, needed spot ≤ bound) (spot : Spot text) :
    (sequences (sets.map one ++ others)).load needed spot ≤ bound := by
  induction sets generalizing spot with
  | nil => exact bounded spot
  | cons set sets induction =>
    cases remaining : sets.map one ++ others with
    | nil =>
      rw [List.map_cons, List.cons_append, remaining]
      exact load_one_le set least spot
    | cons next rest =>
      rw [remaining] at induction
      rw [List.map_cons, List.cons_append, remaining]
      exact load_one_le set induction spot

/-- Of alternatives the one that is tried is on the stack with the next. -/
theorem load_alternatives_le {options : List Code} {bound : Nat} {spot : Spot text}
    (bounded : ∀ option ∈ options, option.load needed spot ≤ bound)
    (least : needed spot ≤ bound) : (alternatives options).load needed spot ≤ 1 + bound := by
  induction options with
  | nil => exact Nat.le_trans least (Nat.le_add_left _ _)
  | cons option others induction =>
    have first := bounded option List.mem_cons_self
    have further := induction fun other listed => bounded other (List.mem_cons_of_mem _ listed)
    cases others with
    | nil => exact Nat.le_trans first (Nat.le_add_left _ _)
    | cons next others =>
      change eitherLoad (option.load needed spot) ((alternatives (next :: others)).load needed spot) ≤ _
      rw [eitherLoad]
      omega

end Code

namespace Machine

/-! ### Overflows -/

/-- The stack overflows while the code is run from a place on, if there are enough steps back. -/
def Overflows (code : Code) (spot : Spot text) (price : Nat) : Prop :=
  ∀ (goals : Goals text) (saved : Saved text) (limit : Nat), price ≤ limit →
    verdict limit (.moving ⟨.run code goals, spot.here, spot.marks, saved⟩) = .overflown

variable {spot : Spot text} {price : Nat}

/-- What leads to an overflow overflows. -/
theorem Leads.overflown {former latter : Stand text} {steps limit : Nat}
    (leads : Leads False steps former latter) (enough : steps ≤ limit)
    (overflown : verdict (limit - steps) latter = .overflown) :
    verdict limit former = .overflown := by
  rcases leads limit with ⟨already, _⟩ | moved
  · exact already
  · rw [moved, if_neg (Nat.not_lt_of_le enough), overflown]

/-- The first way of a code is reached, unless the stack overflows. What was saved remains. -/
theorem leads_first {code : Code} {first : Spot text} {others : List (Spot text)}
    (ways : code.ends spot = first :: others) (goals : Goals text) (saved : Saved text) :
    ∃ steps earlier, steps ≤ code.cost spot ∧ saved.size ≤ earlier.size ∧
      Leads False steps (.moving ⟨.run code goals, spot.here, spot.marks, saved⟩)
        (.moving ⟨goals, first.here, first.marks, earlier⟩) := by
  have explored : Explores False (fun _ => 0) goals saved _ _ _ := follows code spot goals saved nofun
  rw [ways] at explored
  cases explored with
  | next leads above _ _ bounded => exact ⟨_, _, Nat.le_of_add_right_le bounded, above, leads⟩

/-- A sequence overflows if its first part does. -/
theorem Overflows.first {first : Code} (overflows : Overflows first spot price) (second : Code) :
    Overflows (.sequence first second) spot price := by
  intro goals saved limit enough
  have begun : Leads False 0 (.moving ⟨.run (.sequence first second) goals, spot.here, spot.marks, saved⟩)
      (.moving ⟨.run first (.run second goals), spot.here, spot.marks, saved⟩) := leads_of_step rfl
  exact begun.overflown (Nat.zero_le _) (overflows _ _ _ enough)

/-- A sequence overflows if its second part does behind the first way of the first. -/
theorem Overflows.behind {first second : Code} {reached : Spot text} {others : List (Spot text)}
    (ways : first.ends spot = reached :: others) (overflows : Overflows second reached price) :
    Overflows (.sequence first second) spot (first.cost spot + price) := by
  intro goals saved limit enough
  obtain ⟨steps, earlier, bounded, _, leads⟩ := leads_first ways (.run second goals) saved
  have begun : Leads False 0 (.moving ⟨.run (.sequence first second) goals, spot.here, spot.marks, saved⟩)
      (.moving ⟨.run first (.run second goals), spot.here, spot.marks, saved⟩) := leads_of_step rfl
  exact (begun.trans leads).overflown (by omega) (overflows _ _ _ (by omega))

/-- Alternatives overflow if the preferred one does. -/
theorem Overflows.preferred {first : Code} (overflows : Overflows first spot price)
    (second : Code) : Overflows (.either first second) spot price := by
  intro goals saved limit enough
  have begun : Leads False 0 (.moving ⟨.run (.either first second) goals, spot.here, spot.marks, saved⟩)
      (.moving ⟨.run first goals, spot.here, spot.marks,
        saved.push (.run second goals) spot.here spot.marks⟩) :=
    leads_of_save rfl nofun
  exact begun.overflown (Nat.zero_le _) (overflows _ _ _ enough)

/-- A repetition that goes over as many characters as the stack has places left overflows.

Proof: induction over the characters. Each of them leaves one more alternative on the stack. -/
theorem iterate_overflown {body : Code} {ahead rest : List Char} {here : Cursor text}
    (split : here.after = ahead ++ rest)
    (passes : ∀ (spot : Spot text) (character : Char) (further : Cursor text),
      character ∈ ahead → spot.here.next? = some (character, further) →
        (∃ others, body.ends spot = ⟨spot.marks, further⟩ :: others) ∧ body.cost spot ≤ price)
    {goals : Goals text} {marks : Marks text} {saved : Saved text} {passed : Nat}
    {since : Option Nat} (progress : ¬ since.any (here.index ≤ ·))
    (long : stackLimit ≤ saved.size + ahead.length) {limit : Nat}
    (enough : price * ahead.length ≤ limit) :
    verdict limit (.moving ⟨.iterate body 0 none true passed since goals, here, marks, saved⟩) =
      .overflown := by
  induction ahead generalizing here marks saved passed since limit with
  | nil =>
    have choice := @step_choice text body 0 goals none passed since here (by simp) (by simp)
      (by simpa using progress) true marks saved
    exact verdict_of_full choice long limit
  | cons character ahead induction =>
    have choice := @step_choice text body 0 goals none passed since here (by simp) (by simp)
      (by simpa using progress) true marks saved
    obtain ⟨further, stepped, remaining, _⟩ := Cursor.next_of_after split
    have moved := Cursor.index_of_next? stepped
    obtain ⟨⟨others, ways⟩, cheap⟩ := passes ⟨marks, here⟩ character further List.mem_cons_self stepped
    obtain ⟨steps, earlier, bounded, above, leads⟩ := leads_first ways
      (.iterate body 0 none true (passed + 1) (some here.index) goals) (saved.push goals here marks)
    have begun : Leads False 0 _ (.moving ⟨.run body
        (.iterate body 0 none true (passed + 1) (some here.index) goals), here, marks,
        saved.push goals here marks⟩) := leads_of_save choice nofun
    rw [size_push] at above
    rw [List.length_cons] at long enough
    rw [Nat.mul_add_one] at enough
    refine (begun.trans leads).overflown (by omega) ?_
    refine induction remaining (fun spot other further listed => ?_) ?_ (by omega) (by omega)
    · exact passes spot other further (List.mem_cons_of_mem _ listed)
    · simpa using by omega

/-- A repetition overflows if it can go over as many characters as the stack has places. -/
theorem Overflows.repetition {body : Code} {ahead rest : List Char}
    (split : spot.here.after = ahead ++ rest)
    (passes : ∀ (spot : Spot text) (character : Char) (further : Cursor text),
      character ∈ ahead → spot.here.next? = some (character, further) →
        (∃ others, body.ends spot = ⟨spot.marks, further⟩ :: others) ∧ body.cost spot ≤ price)
    (long : stackLimit ≤ ahead.length) :
    Overflows (.repetition body 0 none true) spot (price * ahead.length) := by
  intro goals saved limit enough
  have begun : Leads False 0
      (.moving ⟨.run (.repetition body 0 none true) goals, spot.here, spot.marks, saved⟩)
      (.moving ⟨.iterate body 0 none true 0 none goals, spot.here, spot.marks, saved⟩) :=
    leads_of_step rfl
  exact begun.overflown (Nat.zero_le _)
    (iterate_overflown split passes (by simp) (Nat.le_add_left_of_le long) enough)

/-- A search is given up if the stack overflows where it begins. -/
theorem Overflows.search {code : Code} {place : Cursor text}
    (overflows : Overflows code (beginning place) price) {limit : Nat} (enough : price ≤ limit) :
    search limit code place = .overflown := by
  have begun : Leads False 0 _ _ := (leads_search code place).trans (leads_try code 0 (by simp))
  exact begun.overflown (Nat.zero_le _) (overflows _ _ _ enough)

end Machine

/-- A search with a program is given up if the stack overflows where it begins. -/
theorem find_overflown {regex : Regex} {code : Code} (made : regex.matcher = .machine code)
    {place : Cursor text} {price : Nat}
    (overflows : Machine.Overflows code (Machine.beginning place) price)
    (enough : price ≤ regex.limit) : regex.find? place = .error (.exceeded .stack) := by
  rw [find?, made]
  simp only [overflows.search enough]

/-- A scan is given up if its first search is. -/
theorem scan_overflown {regex : Regex} {problem : Problem}
    (failed : regex.find? (Cursor.start text) = .error problem) :
    (regex.scan text).problem = some problem := by
  rw [scan, scanFrom, failed]

end Highlighter.Regex

import Highlighter.Proofs.Regex.Automaton
import Highlighter.Proofs.Regex.Meaning
import Highlighter.Regex.Machine

/-!
# The machine goes through the ways of its code in order

The meaning of a code is the list of its ways, as for expressions; besides the place, a way
has the marks that it has set. The machine knows no lists. Whenever it has reached what
follows the code by one way, it comes to the next way by failing there. `Explores` says so
of a code, its continuation and the alternatives saved before, and is proved by induction
over the code.

Going back is counted on the way: a search that has fewer steps back than it needs is given
up, and one that has enough ends as if they were not counted. `Code.cost` bounds what one
code needs until all its ways have failed. `Code.load` bounds how many alternatives it adds to
the stack: those of the code and of what follows it from where the code has ended. A search
for which the stack is large enough is called safe here. One that is not safe may end with an
overflow; whatever else it ends with is right.
-/

namespace Highlighter.Regex

open Text (Cursor)
open Machine (Marks Goals Saved State Verdict)

variable {text : List Char}

/-- A place with the marks that were set on the way to it. -/
structure Spot (text : List Char) where
  marks : Marks text
  here : Cursor text

namespace Code

/-- The ways of a code: where it can end, with the marks it has then set, the preferred way
first. -/
def ends : Code → Spot text → List (Spot text)
  | skip, spot => [spot]
  | one set, spot => (set.ends spot.here).map fun last => ⟨spot.marks, last⟩
  | condition assertion, spot => if assertion.holds spot.here then [spot] else []
  | part automaton, spot =>
    (automaton.match? spot.here).toList.map fun last => ⟨spot.marks, last⟩
  | sequence first second, spot => (first.ends spot).flatMap second.ends
  | either first second, spot => first.ends spot ++ second.ends spot
  | repetition body least most greedy, spot =>
    repeated Spot.here body.ends least most greedy spot
  | capture group body, spot =>
    (body.ends ⟨Machine.setMark spot.marks (2 * group) spot.here, spot.here⟩).map fun reached =>
      ⟨Machine.setMark reached.marks (2 * group + 1) reached.here, reached.here⟩
  | reference group, spot =>
    ((Machine.captured? spot.marks group).bind fun expected =>
      Machine.pass? expected spot.here).toList.map fun last => ⟨spot.marks, last⟩
  | look distance false body, spot =>
    match spot.here.back? distance with
    | some place => (body.ends ⟨spot.marks, place⟩).map fun reached => ⟨reached.marks, spot.here⟩
    | none => []
  | look distance true body, spot =>
    match spot.here.back? distance with
    | some place => if (body.ends ⟨spot.marks, place⟩).isEmpty then [spot] else []
    | none => [spot]
  | atomic body, spot => (body.ends spot).head?.toList

end Code

/-- The costs of a number of rounds, of which each way of one is followed by the next. -/
def timesCost (body : Spot text → List (Spot text)) (cost : Spot text → Nat) :
    Nat → Spot text → Nat
  | 0, _ => 0
  | count + 1, spot => cost spot + ((body spot).map (timesCost body cost count)).sum

/-- The costs of up to a number of rounds: each has a step back to go on without it. -/
def upToCost (body : Spot text → List (Spot text)) (cost : Spot text → Nat) :
    Nat → Spot text → Nat
  | 0, _ => 0
  | count + 1, spot => cost spot + ((body spot).map (upToCost body cost count)).sum + 1

/-- The costs of any number of rounds. -/
def starCost (body : Spot text → List (Spot text)) (cost : Spot text → Nat)
    (spot : Spot text) : Nat :=
  cost spot + ((body spot).map fun reached =>
    if _further : spot.here.index < reached.here.index then starCost body cost reached
    else 0).sum + 1
termination_by text.length - spot.here.index
decreasing_by
  have bounded := reached.here.index_le_length
  omega

/-- A bound on the steps back that a code takes until all its ways have failed. -/
def Code.cost : Code → Spot text → Nat
  | skip, _ | one _, _ | condition _, _ | part _, _ | reference _, _ => 0
  | sequence first second, spot => first.cost spot + ((first.ends spot).map second.cost).sum
  | either first second, spot => first.cost spot + (1 + second.cost spot)
  | repetition body least none _, spot =>
    timesCost body.ends body.cost least spot +
      ((times body.ends least spot).map (starCost body.ends body.cost)).sum
  | repetition body least (some most) _, spot =>
    timesCost body.ends body.cost (min least most) spot +
      ((times body.ends (min least most) spot).map (upToCost body.ends body.cost (most - least))).sum
  | capture group body, spot =>
    body.cost ⟨Machine.setMark spot.marks (2 * group) spot.here, spot.here⟩
  | look distance negated body, spot =>
    match spot.here.back? distance with
    | some place => body.cost ⟨spot.marks, place⟩ + if negated then 1 else 0
    | none => 0
  | atomic body, spot => body.cost spot

/-- What two alternatives add to the stack: the second is saved while the first is tried. -/
def eitherLoad (first second : Nat) : Nat := max (1 + first) second

/-- What another round and going on behind add to the stack, whichever is tried first. -/
def choiceLoad (greedy : Bool) (again behind : Nat) : Nat :=
  if greedy then eitherLoad again behind else eitherLoad behind again

/-- What a number of rounds add to the stack, with what follows them. -/
def timesLoad (load : (Spot text → Nat) → Spot text → Nat) :
    Nat → (Spot text → Nat) → Spot text → Nat
  | 0, needed => needed
  | count + 1, needed => load (timesLoad load count needed)

/-- What up to a number of rounds add to the stack, with what follows them. -/
def upToLoad (load : (Spot text → Nat) → Spot text → Nat) (greedy : Bool) :
    Nat → (Spot text → Nat) → Spot text → Nat
  | 0, needed, spot => needed spot
  | count + 1, needed, spot =>
    choiceLoad greedy (load (upToLoad load greedy count needed) spot) (needed spot)

/-- What any number of rounds add to the stack, with what follows them. -/
def starLoad (load : (Spot text → Nat) → Spot text → Nat) (greedy : Bool)
    (needed : Spot text → Nat) (spot : Spot text) : Nat :=
  choiceLoad greedy
    (load (fun reached =>
      if _further : spot.here.index < reached.here.index then starLoad load greedy needed reached
      else 0) spot)
    (needed spot)
termination_by text.length - spot.here.index
decreasing_by
  have bounded := reached.here.index_le_length
  omega

/-- A bound on the alternatives that a code and what follows it add to the stack, if from a
place that the code leads to so many are `needed`. -/
def Code.load : Code → (Spot text → Nat) → Spot text → Nat
  | skip, needed, spot => needed spot
  | one set, needed, spot =>
    match spot.here.next? with
    | some (character, further) => if set.contains character then needed ⟨spot.marks, further⟩ else 0
    | none => 0
  | condition assertion, needed, spot => if assertion.holds spot.here then needed spot else 0
  | part automaton, needed, spot =>
    (automaton.match? spot.here).elim 0 fun last => needed ⟨spot.marks, last⟩
  | sequence first second, needed, spot => first.load (second.load needed) spot
  | either first second, needed, spot =>
    eitherLoad (first.load needed spot) (second.load needed spot)
  | repetition body least none greedy, needed, spot =>
    timesLoad body.load least (starLoad body.load greedy needed) spot
  | repetition body least (some most) greedy, needed, spot =>
    timesLoad body.load (min least most) (upToLoad body.load greedy (most - least) needed) spot
  | capture group body, needed, spot =>
    body.load
      (fun reached =>
        needed ⟨Machine.setMark reached.marks (2 * group + 1) reached.here, reached.here⟩)
      ⟨Machine.setMark spot.marks (2 * group) spot.here, spot.here⟩
  | reference group, needed, spot =>
    ((Machine.captured? spot.marks group).bind fun expected =>
      Machine.pass? expected spot.here).elim 0 fun last => needed ⟨spot.marks, last⟩
  | look distance false body, needed, spot =>
    match spot.here.back? distance with
    | some place => body.load (fun reached => needed ⟨reached.marks, spot.here⟩) ⟨spot.marks, place⟩
    | none => 0
  | look distance true body, needed, spot =>
    match spot.here.back? distance with
    | some place =>
      eitherLoad (body.load (fun _ => 0) ⟨spot.marks, place⟩)
        (if (body.ends ⟨spot.marks, place⟩).isEmpty then needed spot else 0)
    | none => needed spot
  | atomic body, needed, spot => body.load needed spot

namespace Machine

@[simp] theorem size_push (saved : Saved text) (goals : Goals text) (here : Cursor text)
    (marks : Marks text) : (saved.push goals here marks).size = saved.size + 1 := rfl

theorem stackLimit_pos : 0 < stackLimit := by decide

/-- Where there is room for one more alternative, the stack is not full. -/
theorem not_full_of_room {saved : Saved text} {further : Nat}
    (room : saved.size + 1 + further ≤ stackLimit) : saved.size < stackLimit := by omega

/-- The machine is about to move on its first goal, or about to go back. -/
inductive Stand (text : List Char) where
  | moving (state : State text)
  | failing (saved : Saved text)

/-- How the search ends from a stand on, with so many steps back left. -/
def verdict (limit : Nat) : Stand text → Verdict text
  | .moving state => run limit state
  | .failing .none => .failed
  | .failing (.alternative _ goals here marks earlier) =>
    match limit with
    | 0 => .exhausted
    | left + 1 => run left ⟨goals, here, marks, earlier⟩

/-- The one stand leads to the other by so many steps back, unless the stack overflows on the
way. In a safe search it does not. -/
def Leads (safe : Prop) (steps : Nat) (former latter : Stand text) : Prop :=
  ∀ limit, (verdict limit former = .overflown ∧ ¬ safe) ∨
    verdict limit former = if limit < steps then .exhausted else verdict (limit - steps) latter

variable {safe : Prop}

theorem Leads.refl (stand : Stand text) : Leads safe 0 stand stand := fun limit => .inr (by simp)

theorem Leads.trans {before behind : Nat} {former middle latter : Stand text}
    (first : Leads safe before former middle) (second : Leads safe behind middle latter) :
    Leads safe (before + behind) former latter := by
  intro limit
  rcases first limit with overflown | moved
  · exact .inl overflown
  · rw [moved]
    by_cases few : limit < before
    · rw [if_pos few, if_pos (by omega)]
      exact .inr rfl
    · rw [if_neg few]
      rcases second (limit - before) with overflown | onward
      · exact .inl overflown
      · refine .inr ?_
        rw [onward, Nat.sub_sub]
        split_ifs <;> first | rfl | omega

/-- A move takes no step back. -/
theorem leads_of_step {state further : State text} (moved : step state = .next further) :
    Leads safe 0 (.moving state) (.moving further) := by
  have attempted : attempt state = attempt further := by
    rw [attempt]
    split <;> simp_all
  intro limit
  refine .inr ?_
  simp only [Nat.not_lt_zero, ↓reduceIte, Nat.sub_zero, verdict]
  rw [run, run, attempted]

/-- A failed goal takes no step back yet. -/
theorem leads_of_failed {state : State text} {saved : Saved text}
    (failed : step state = .ended (.failed saved)) :
    Leads safe 0 (.moving state) (.failing saved) := by
  have attempted : attempt state = .failed saved := by
    rw [attempt]
    split <;> simp_all
  intro limit
  refine .inr ?_
  simp only [Nat.not_lt_zero, ↓reduceIte, Nat.sub_zero, verdict]
  rw [run, attempted]
  cases saved <;> rfl

/-- Where an alternative was to be saved and the stack is full, the search ends. -/
theorem verdict_of_full {state : State text} {alternative chosen : Goals text} {place : Cursor text}
    (moved : step state = state.save alternative chosen place)
    (full : stackLimit ≤ state.saved.size) (limit : Nat) :
    verdict limit (.moving state) = .overflown := by
  have attempted : attempt state = .overflown := by
    rw [State.save, if_neg (Nat.not_lt_of_le full)] at moved
    rw [attempt]
    split <;> simp_all
  rw [verdict, run, attempted]

/-- An alternative is saved if the stack is not full. -/
theorem leads_of_save {state : State text} {alternative chosen : Goals text} {place : Cursor text}
    (moved : step state = state.save alternative chosen place)
    (room : safe → state.saved.size < stackLimit) :
    Leads safe 0 (.moving state)
      (.moving ⟨chosen, place, state.marks, state.saved.push alternative state.here state.marks⟩) := by
  by_cases full : state.saved.size < stackLimit
  · rw [State.save, if_pos full] at moved
    exact leads_of_step moved
  · intro limit
    exact .inl ⟨verdict_of_full moved (Nat.le_of_not_lt full) limit, fun trust => full (room trust)⟩

/-- Going back takes one step. -/
theorem leads_back (goals : Goals text) (here : Cursor text) (marks : Marks text)
    (earlier : Saved text) :
    Leads safe 1 (.failing (earlier.push goals here marks)) (.moving ⟨goals, here, marks, earlier⟩) := by
  intro limit
  refine .inr ?_
  cases limit with
  | zero => rfl
  | succ left => simp [verdict, Saved.push]

/-- From a stand on, the goals are reached by these ways in order, each when the one before
has failed there, and when all have failed the saved alternatives are left. The bound is on
the steps back that this takes. In a safe search the stack has room for what is needed from
each place on. -/
inductive Explores (safe : Prop) (needed : Spot text → Nat) (goals : Goals text)
    (saved : Saved text) : Stand text → List (Spot text) → Nat → Prop where
  | finished {stand : Stand text} {steps bound : Nat}
      (leads : Leads safe steps stand (.failing saved)) (bounded : steps ≤ bound) :
      Explores safe needed goals saved stand [] bound
  | next {stand : Stand text} {steps : Nat} {spot : Spot text} {earlier : Saved text}
      {others : List (Spot text)} {cost bound : Nat}
      (leads : Leads safe steps stand (.moving ⟨goals, spot.here, spot.marks, earlier⟩))
      (above : saved.size ≤ earlier.size)
      (room : safe → earlier.size + needed spot ≤ stackLimit)
      (behind : Explores safe needed goals saved (.failing earlier) others cost)
      (bounded : steps + cost ≤ bound) :
      Explores safe needed goals saved stand (spot :: others) bound

namespace Explores

variable {goals middle : Goals text} {saved earlier : Saved text} {stand former : Stand text}
  {ways others : List (Spot text)} {cost bound : Nat} {needed ahead : Spot text → Nat}

/-- What leads to a stand is explored with what it takes to come there. -/
theorem led {steps : Nat} (leads : Leads safe steps former stand)
    (explores : Explores safe needed goals saved stand ways cost) :
    Explores safe needed goals saved former ways (steps + cost) := by
  cases explores with
  | finished ended bounded => exact .finished (leads.trans ended) (by omega)
  | next reached above room behind bounded =>
    exact .next (leads.trans reached) above room behind (by omega)

/-- The goals are reached in one way, and nothing is saved on the way. -/
theorem single (spot : Spot text) (room : safe → saved.size + needed spot ≤ stackLimit) :
    Explores safe needed goals saved (.moving ⟨goals, spot.here, spot.marks, saved⟩) [spot] 0 :=
  .next (.refl _) (Nat.le_refl _) room (.finished (.refl _) (Nat.le_refl _)) (Nat.le_refl _)

/-- A bound may be larger. -/
theorem mono (explores : Explores safe needed goals saved stand ways cost) (larger : cost ≤ bound) :
    Explores safe needed goals saved stand ways bound := by
  cases explores with
  | finished ended bounded => exact .finished ended (by omega)
  | next reached above room behind bounded => exact .next reached above room behind (by omega)

/-- When all ways have failed, those that were saved before follow. -/
theorem append (above : saved.size ≤ earlier.size)
    (explores : Explores safe needed goals earlier stand ways cost)
    (behind : Explores safe needed goals saved (.failing earlier) others bound) :
    Explores safe needed goals saved stand (ways ++ others) (cost + bound) := by
  induction explores with
  | finished ended bounded => exact (behind.led ended).mono (by omega)
  | next reached higher room _ bounded induction =>
    exact .next reached (above.trans higher) room induction (by omega)

/-- Behind each way to some goals in the middle, these are explored in turn. -/
theorem flat_map (onward : Spot text → List (Spot text)) (price : Spot text → Nat)
    (explores : Explores safe ahead middle saved stand ways cost)
    (behind : ∀ spot ∈ ways, ∀ left : Saved text, (safe → left.size + ahead spot ≤ stackLimit) →
      Explores safe needed goals left (.moving ⟨middle, spot.here, spot.marks, left⟩)
        (onward spot) (price spot)) :
    Explores safe needed goals saved stand (ways.flatMap onward) (cost + (ways.map price).sum) := by
  induction explores with
  | finished ended bounded => exact .finished ended (by omega)
  | @next _ steps spot left others cost bound reached above room _ bounded induction =>
    have here := behind spot List.mem_cons_self left room
    have later := induction fun other listed => behind other (List.mem_cons_of_mem _ listed)
    refine ((here.append above later).led reached).mono ?_
    rw [List.map_cons, List.sum_cons]
    omega

/-- Behind each way to some goals in the middle, one way leads on. -/
theorem map (onward : Spot text → Spot text)
    (explores : Explores safe (fun spot => needed (onward spot)) middle saved stand ways cost)
    (behind : ∀ (spot : Spot text) (left : Saved text),
      Leads safe 0 (.moving ⟨middle, spot.here, spot.marks, left⟩)
        (.moving ⟨goals, (onward spot).here, (onward spot).marks, left⟩)) :
    Explores safe needed goals saved stand (ways.map onward) cost := by
  have explored := explores.flat_map (fun spot => [onward spot]) (fun _ => 0)
    fun spot _ left room => (single (onward spot) room).led (behind spot left)
  rw [← List.map_eq_flatMap] at explored
  exact explored.mono (by simp)

end Explores

/-- The machine goes through the ways of a code in order, whatever follows it and whatever
was saved before. A safe search has room on the stack for the code and what follows it. -/
def Follows (code : Code) : Prop :=
  ∀ {text : List Char} {safe : Prop} {needed : Spot text → Nat} (spot : Spot text)
    (goals : Goals text) (saved : Saved text),
    (safe → saved.size + code.load needed spot ≤ stackLimit) →
      Explores safe needed goals saved (.moving ⟨.run code goals, spot.here, spot.marks, saved⟩)
        (code.ends spot) (code.cost spot)

section Rounds

variable {body : Code} {least : Nat} {goals : Goals text} {needed : Spot text → Nat}

/-- A repetition goes on behind when it has no more rounds. -/
theorem leads_behind {most passed : Nat} (complete : most ≤ passed) {since : Option Nat}
    {greedy : Bool} {here : Cursor text} {marks : Marks text} {saved : Saved text} :
    Leads safe 0
      (.moving ⟨.iterate body least (some most) greedy passed since goals, here, marks, saved⟩)
      (.moving ⟨goals, here, marks, saved⟩) := by
  have optional : ¬ (passed < least ∧ (some most).all (passed < ·)) := by
    simp only [Option.all_some, decide_eq_true_eq]
    omega
  have ended : (some most).any (· ≤ passed) := by simpa using complete
  exact leads_of_step (by simp only [step, if_neg optional, if_pos ended])

/-- A repetition without a bound fails if its last round did not consume. -/
theorem leads_stuck {passed : Nat} (required : least ≤ passed) {since : Nat}
    {greedy : Bool} {here : Cursor text} {marks : Marks text} {saved : Saved text}
    (stuck : here.index ≤ since) :
    Leads safe 0
      (.moving ⟨.iterate body least none greedy passed (some since) goals, here, marks, saved⟩)
      (.failing saved) := by
  have optional : ¬ (passed < least ∧ (none : Option Nat).all (passed < ·)) := by
    intro both
    omega
  refine leads_of_failed ?_
  simp only [step, if_neg optional]
  simp [stuck]

/-- A repetition begins each round that is required. -/
theorem leads_required {most : Option Nat} {passed : Nat} (required : passed < least)
    (allowed : most.all (passed < ·)) {since : Option Nat} {greedy : Bool} {here : Cursor text}
    {marks : Marks text} {saved : Saved text} :
    Leads safe 0 (.moving ⟨.iterate body least most greedy passed since goals, here, marks, saved⟩)
      (.moving ⟨.run body (.iterate body least most greedy (passed + 1) since goals), here, marks,
        saved⟩) :=
  leads_of_step (by simp only [step, if_pos (And.intro required allowed)])

/-- Where a repetition may begin another round or go on behind, it saves what it prefers
less. -/
theorem step_choice {most : Option Nat} {passed : Nat} {since : Option Nat} {here : Cursor text}
    (optional : ¬ (passed < least ∧ most.all (passed < ·))) (unfinished : ¬ most.any (· ≤ passed))
    (progress : ¬ (most.isNone ∧ since.any (here.index ≤ ·))) (greedy : Bool) (marks : Marks text)
    (saved : Saved text) :
    let state : State text := ⟨.iterate body least most greedy passed since goals, here, marks, saved⟩
    let round := Goals.run body (.iterate body least most greedy (passed + 1) (some here.index) goals)
    step state =
      if greedy then state.save goals round here else state.save round goals here := by
  simp only [step, if_neg optional, if_neg unfinished, if_neg progress]

/-- Where a repetition may begin another round or go on behind, it does first what it
prefers, and the other when that has failed. -/
theorem explores_choice {most : Option Nat} {passed : Nat} {since : Option Nat}
    (optional : ¬ (passed < least ∧ most.all (passed < ·))) (unfinished : ¬ most.any (· ≤ passed))
    {spot : Spot text} (progress : ¬ (most.isNone ∧ since.any (spot.here.index ≤ ·)))
    {greedy : Bool} {more : List (Spot text)} {cost again : Nat} {saved : Saved text}
    (room : safe → saved.size + choiceLoad greedy again (needed spot) ≤ stackLimit)
    (rounds : ∀ left : Saved text, (safe → left.size + again ≤ stackLimit) →
      Explores safe needed goals left
        (.moving ⟨.run body (.iterate body least most greedy (passed + 1) (some spot.here.index)
          goals), spot.here, spot.marks, left⟩) more cost) :
    Explores safe needed goals saved
      (.moving ⟨.iterate body least most greedy passed since goals, spot.here, spot.marks, saved⟩)
      (prefer greedy more [spot]) (cost + 1) := by
  have moved := @step_choice text body least goals most passed since spot.here optional unfinished
    progress greedy spot.marks saved
  let round := Goals.run body (.iterate body least most greedy (passed + 1) (some spot.here.index) goals)
  cases greedy with
  | true =>
    have both : safe → saved.size + 1 + again ≤ stackLimit ∧ saved.size + needed spot ≤ stackLimit := by
      intro trust
      have enough := room trust
      simp only [choiceLoad, eitherLoad, ↓reduceIte] at enough
      omega
    have begun : Leads safe 0 _ (.moving ⟨round, spot.here, spot.marks,
        saved.push goals spot.here spot.marks⟩) :=
      leads_of_save moved fun trust => not_full_of_room (both trust).1
    have behind := (Explores.single spot fun trust => (both trust).2).led
      (leads_back goals spot.here spot.marks saved)
    have first := rounds (saved.push goals spot.here spot.marks) fun trust => (both trust).1
    have all := first.append (Nat.le_succ _) behind
    exact (all.led begun).mono (by omega)
  | false =>
    have both : safe → saved.size + 1 + needed spot ≤ stackLimit ∧ saved.size + again ≤ stackLimit := by
      intro trust
      have enough := room trust
      simp only [choiceLoad, eitherLoad, Bool.false_eq_true, ↓reduceIte] at enough
      omega
    have begun : Leads safe 0 _ (.moving ⟨goals, spot.here, spot.marks,
        saved.push round spot.here spot.marks⟩) :=
      leads_of_save moved fun trust => not_full_of_room (both trust).1
    have behind := (rounds saved fun trust => (both trust).2).led
      (leads_back round spot.here spot.marks saved)
    exact .next begun (Nat.le_succ _) (fun trust => (both trust).1) behind (by omega)

variable (follows : Follows body)

include follows

/-- The optional rounds of a bounded repetition. -/
theorem explores_up_to {most passed : Nat} (required : ¬ (passed < least ∧ passed < most))
    (since : Option Nat) (greedy : Bool) (spot : Spot text) (saved : Saved text)
    (room : safe →
      saved.size + upToLoad body.load greedy (most - passed) needed spot ≤ stackLimit) :
    Explores safe needed goals saved
      (.moving ⟨.iterate body least (some most) greedy passed since goals, spot.here, spot.marks,
        saved⟩)
      (upTo greedy body.ends (most - passed) spot)
      (upToCost body.ends body.cost (most - passed) spot) := by
  generalize left : most - passed = count at room
  induction count generalizing passed since spot saved with
  | zero => exact ((Explores.single spot room).led (leads_behind (by omega))).mono (by omega)
  | succ count induction =>
    refine explores_choice (by simpa using required) (by simp; omega) (by simp) room
      fun left room => ?_
    refine (follows spot _ left room).flat_map _ _ fun reached _ left room => ?_
    exact induction (by omega) _ reached left (by omega) room

/-- The optional rounds of a repetition without a bound. -/
theorem explores_star {passed : Nat} (required : least ≤ passed) {since : Option Nat}
    (spot : Spot text) (progress : ¬ since.any (spot.here.index ≤ ·)) (greedy : Bool)
    (saved : Saved text)
    (room : safe → saved.size + starLoad body.load greedy needed spot ≤ stackLimit) :
    Explores safe needed goals saved
      (.moving ⟨.iterate body least none greedy passed since goals, spot.here, spot.marks, saved⟩)
      (star Spot.here greedy body.ends spot) (starCost body.ends body.cost spot) := by
  induction spot using star.induct Spot.here generalizing passed since saved with
  | case1 spot induction =>
    rw [starLoad] at room
    rw [star, starCost]
    refine explores_choice (by simp; omega) (by simp) (by simpa using progress) room
      fun left room => ?_
    refine (follows spot _ left room).flat_map _ _ fun reached _ left room => ?_
    split
    · rename_i further
      rw [dif_pos further] at room
      exact induction reached further (Nat.le_succ_of_le required) (by simpa using further) left room
    · rename_i stuck
      exact .finished (leads_stuck (Nat.le_succ_of_le required) (by omega)) (Nat.le_refl _)

omit follows in
/-- The costs of what follows each way are the costs of all that follows. -/
theorem sum_flat_map {onward : Spot text → List (Spot text)} {before price : Spot text → Nat}
    (ways : List (Spot text)) :
    (ways.map fun way => before way + ((onward way).map price).sum).sum =
      (ways.map before).sum + ((ways.flatMap onward).map price).sum := by
  induction ways with
  | nil => rfl
  | cons way others induction =>
    simp only [List.map_cons, List.sum_cons, List.flatMap_cons, List.map_append, List.sum_append,
      induction]
    omega

/-- The required rounds of a repetition, and behind them the others. -/
theorem explores_times {most : Option Nat} {greedy : Bool} {onward : Spot text → List (Spot text)}
    {price ahead : Spot text → Nat} {count passed : Nat}
    (rounds : passed + count = most.elim least (min least ·))
    (behind : ∀ (spot : Spot text) (saved : Saved text),
      (safe → saved.size + ahead spot ≤ stackLimit) → Explores safe needed goals saved
        (.moving ⟨.iterate body least most greedy (passed + count) none goals, spot.here, spot.marks,
          saved⟩) (onward spot) (price spot))
    (spot : Spot text) (saved : Saved text)
    (room : safe → saved.size + timesLoad body.load count ahead spot ≤ stackLimit) :
    Explores safe needed goals saved
      (.moving ⟨.iterate body least most greedy passed none goals, spot.here, spot.marks, saved⟩)
      ((times body.ends count spot).flatMap onward)
      (timesCost body.ends body.cost count spot +
        ((times body.ends count spot).map price).sum) := by
  induction count generalizing passed spot saved with
  | zero =>
    rw [times, List.flatMap_singleton]
    exact (behind spot saved room).mono (by simp)
  | succ count induction =>
    have required : passed < least ∧ most.all (passed < ·) := by
      cases most with
      | none => exact ⟨by simp at rounds; omega, rfl⟩
      | some most =>
        simp only [Option.elim_some] at rounds
        exact ⟨by omega, by simp only [Option.all_some, decide_eq_true_eq]; omega⟩
    have next : passed + 1 + count = most.elim least (min least ·) := by omega
    have later := (follows spot _ saved room).flat_map _ _ fun reached _ left room =>
      induction next
        (fun other saved room => by
          have same : passed + 1 + count = passed + (count + 1) := by omega
          rw [same]
          exact behind other saved room) reached left room
    rw [times, List.flatMap_assoc]
    refine (later.led (leads_required required.1 required.2)).mono ?_
    rw [sum_flat_map, timesCost]
    omega

end Rounds

/-- Running a repetition is beginning its first round. -/
theorem follows_repetition {body : Code} (follows : Follows body) (least : Nat)
    (most : Option Nat) (greedy : Bool) : Follows (.repetition body least most greedy) := by
  intro text safe needed spot goals saved room
  have begun : Leads safe 0
      (.moving ⟨.run (.repetition body least most greedy) goals, spot.here, spot.marks, saved⟩)
      (.moving ⟨.iterate body least most greedy 0 none goals, spot.here, spot.marks, saved⟩) :=
    leads_of_step rfl
  cases most with
  | none =>
    have rounds : Explores safe needed goals saved
        (.moving ⟨.iterate body least none greedy 0 none goals, spot.here, spot.marks, saved⟩)
        ((times body.ends least spot).flatMap (star Spot.here greedy body.ends))
        (timesCost body.ends body.cost least spot +
          ((times body.ends least spot).map (starCost body.ends body.cost)).sum) :=
      explores_times follows (by simp) (fun other left room =>
        explores_star follows (by omega) other (by simp) greedy left room) spot saved room
    exact (rounds.led begun).mono (by rw [Code.cost]; omega)
  | some most =>
    have rounds : Explores safe needed goals saved
        (.moving ⟨.iterate body least (some most) greedy 0 none goals, spot.here, spot.marks, saved⟩)
        ((times body.ends (min least most) spot).flatMap (upTo greedy body.ends (most - least)))
        (timesCost body.ends body.cost (min least most) spot +
          ((times body.ends (min least most) spot).map
            (upToCost body.ends body.cost (most - least))).sum) :=
      explores_times follows (by simp) (fun other left room => by
        have optional : most - least = most - (0 + min least most) := by omega
        rw [optional] at room ⊢
        exact explores_up_to follows (by omega) none greedy other left room) spot saved room
    exact (rounds.led begun).mono (by rw [Code.cost]; omega)

/-- A goal that moves in at most one way. -/
theorem explores_at_most_one {first goals : Goals text} {here : Cursor text}
    {marks : Marks text} {saved : Saved text} {needed : Spot text → Nat} (way : Option (Spot text))
    (moved : step ⟨first, here, marks, saved⟩ = match way with
      | some spot => .next ⟨goals, spot.here, spot.marks, saved⟩
      | none => .ended (.failed saved))
    (room : safe → saved.size + way.elim 0 needed ≤ stackLimit) :
    Explores safe needed goals saved (.moving ⟨first, here, marks, saved⟩) way.toList 0 := by
  cases way with
  | none => exact .finished (leads_of_failed moved) (Nat.le_refl _)
  | some spot => exact ((Explores.single spot room).led (leads_of_step moved)).mono (Nat.le_refl _)

/-- What was saved inside an atomic group is forgotten, so only its first way is left, and more
room on the stack. -/
theorem explores_atomic {goals : Goals text} {saved : Saved text} {stand : Stand text}
    {ways : List (Spot text)} {cost : Nat} {needed : Spot text → Nat}
    (explores : Explores safe needed (.commit saved goals) saved stand ways cost) :
    Explores safe needed goals saved stand ways.head?.toList cost := by
  cases explores with
  | finished ended bounded => exact .finished ended bounded
  | next reached above room behind bounded =>
    have enough := fun trust => Nat.le_trans (Nat.add_le_add_right above _) (room trust)
    exact ((Explores.single _ enough).led (reached.trans (leads_of_step rfl))).mono (by omega)

/-- If there is a way ahead, a negated lookaround fails, and otherwise it goes on where it
was. -/
theorem explores_refuted {goals : Goals text} {saved : Saved text} {stand : Stand text}
    {ways : List (Spot text)} {cost : Nat} {spot : Spot text} {needed ahead : Spot text → Nat}
    (explores : Explores safe ahead (.refute saved)
      (saved.push goals spot.here spot.marks) stand ways cost)
    (room : safe → saved.size + (if ways.isEmpty then needed spot else 0) ≤ stackLimit) :
    Explores safe needed goals saved stand (if ways.isEmpty then [spot] else []) (cost + 1) := by
  cases explores with
  | finished ended bounded =>
    have back := ended.trans (leads_back goals spot.here spot.marks saved)
    exact ((Explores.single spot room).led back).mono (by omega)
  | next reached _ _ behind bounded =>
    exact .finished (reached.trans (leads_of_failed rfl)) (by omega)

/-- A character is passed over if it belongs to the class. -/
theorem follows_one (set : CharClass) : Follows (.one set) := by
  intro text safe needed spot goals saved room
  rw [Code.load] at room
  cases stepped : spot.here.next? with
  | none =>
    rw [Code.ends, CharClass.ends, stepped]
    rw [stepped] at room
    exact explores_at_most_one none (by simp only [step, stepped]) room
  | some next =>
    obtain ⟨character, further⟩ := next
    rw [Code.ends, CharClass.ends, stepped]
    rw [stepped] at room
    by_cases contained : set.contains character
    · simp only [contained, ↓reduceIte] at room ⊢
      exact explores_at_most_one (some ⟨spot.marks, further⟩)
        (by simp [step, stepped, contained]) room
    · simp only [contained] at room ⊢
      exact explores_at_most_one none (by simp [step, stepped, contained]) room

/-- If the first option is tried, the stack holds the second. -/
theorem follows_either {first second : Code} (former : Follows first) (latter : Follows second) :
    Follows (.either first second) := by
  intro text safe needed spot goals saved room
  have both : safe → saved.size + 1 + first.load needed spot ≤ stackLimit ∧
      saved.size + second.load needed spot ≤ stackLimit := by
    intro trust
    have enough := room trust
    rw [Code.load, eitherLoad] at enough
    omega
  have begun : Leads safe 0
      (.moving ⟨.run (.either first second) goals, spot.here, spot.marks, saved⟩)
      (.moving ⟨.run first goals, spot.here, spot.marks,
        saved.push (.run second goals) spot.here spot.marks⟩) :=
    leads_of_save rfl fun trust => not_full_of_room (both trust).1
  have others := (latter spot goals saved fun trust => (both trust).2).led
    (leads_back (.run second goals) spot.here spot.marks saved)
  have tried := former spot goals (saved.push (.run second goals) spot.here spot.marks)
    fun trust => (both trust).1
  have all := tried.append (Nat.le_succ _) others
  exact (all.led begun).mono (by rw [Code.cost]; omega)

/-- What a group has matched is put down before and behind its body. -/
theorem follows_capture (group : Nat) {body : Code} (follows : Follows body) :
    Follows (.capture group body) := by
  intro text safe needed spot goals saved room
  have inside := follows ⟨setMark spot.marks (2 * group) spot.here, spot.here⟩
    (.mark (2 * group + 1) goals) saved room
  have marked := inside.map (fun reached =>
    ⟨setMark reached.marks (2 * group + 1) reached.here, reached.here⟩)
    fun reached left => leads_of_step rfl
  have begun : Leads safe 0
      (.moving ⟨.run (.capture group body) goals, spot.here, spot.marks, saved⟩)
      (.moving ⟨.run body (.mark (2 * group + 1) goals), spot.here,
        setMark spot.marks (2 * group) spot.here, saved⟩) :=
    (leads_of_step rfl).trans (leads_of_step rfl)
  exact (marked.led begun).mono (by rw [Code.cost]; omega)

/-- A lookaround is left where it began, and a negated one only if its body has no way. -/
theorem follows_look (distance : Nat) (negated : Bool) {body : Code} (follows : Follows body) :
    Follows (.look distance negated body) := by
  intro text safe needed spot goals saved room
  cases looked : spot.here.back? distance with
  | none =>
    cases negated with
    | false =>
      rw [Code.ends, looked]
      rw [Code.load, looked] at room
      exact (explores_at_most_one none (by simp [step, looked]) room).mono (Nat.zero_le _)
    | true =>
      rw [Code.ends, looked]
      rw [Code.load, looked] at room
      exact (explores_at_most_one (some spot) (by simp [step, looked]) room).mono (Nat.zero_le _)
  | some place =>
    cases negated with
    | false =>
      rw [Code.ends, Code.cost, looked]
      rw [Code.load, looked] at room
      have inside := follows ⟨spot.marks, place⟩ (.return spot.here goals) saved room
      have returned := inside.map (fun reached => ⟨reached.marks, spot.here⟩)
        fun reached left => leads_of_step rfl
      exact (returned.led (leads_of_step (by simp only [step, looked]))).mono (by simp)
    | true =>
      rw [Code.ends, Code.cost, looked]
      rw [Code.load, looked] at room
      have both : safe →
          saved.size + 1 + body.load (fun _ => 0) ⟨spot.marks, place⟩ ≤ stackLimit ∧
          saved.size + (if (body.ends ⟨spot.marks, place⟩).isEmpty then needed spot else 0) ≤
            stackLimit := by
        intro trust
        have enough := room trust
        simp only [eitherLoad] at enough
        omega
      have begun : Leads safe 0
          (.moving ⟨.run (.look distance true body) goals, spot.here, spot.marks, saved⟩)
          (.moving ⟨.run body (.refute saved), place, spot.marks,
            saved.push goals spot.here spot.marks⟩) :=
        leads_of_save (by simp only [step, looked]) fun trust => not_full_of_room (both trust).1
      have inside := follows ⟨spot.marks, place⟩ (.refute saved)
        (saved.push goals spot.here spot.marks) fun trust => (both trust).1
      have refuted := explores_refuted inside fun trust => (both trust).2
      exact (refuted.led begun).mono (by simp)

/-- The machine goes through the ways of every code in order.

Proof: induction over the code. -/
theorem follows (code : Code) : Follows code := by
  induction code with
  | skip =>
    intro text safe needed spot goals saved room
    exact explores_at_most_one (some spot) (by rfl) room
  | one set => exact follows_one set
  | condition assertion =>
    intro text safe needed spot goals saved room
    rw [Code.load] at room
    by_cases held : assertion.holds spot.here
    · rw [if_pos held] at room
      rw [Code.ends, if_pos held]
      exact explores_at_most_one (some spot) (by simp [step, held]) room
    · rw [if_neg held] at room
      rw [Code.ends, if_neg held]
      exact explores_at_most_one none (by simp [step, held]) room
  | part automaton =>
    intro text safe needed spot goals saved room
    rw [Code.ends, ← Option.toList_map]
    rw [Code.load] at room
    refine explores_at_most_one _ ?_ ?_
    · cases found : automaton.match? spot.here <;> simp [step, found]
    · cases found : automaton.match? spot.here <;> simpa [found] using room
  | sequence first second former latter =>
    intro text safe needed spot goals saved room
    have begun := former spot (.run second goals) saved room
    have behind := begun.flat_map second.ends second.cost fun middle _ left room =>
      latter middle goals left room
    exact (behind.led (leads_of_step rfl)).mono (by rw [Code.cost]; omega)
  | either first second former latter => exact follows_either former latter
  | repetition body least most greedy induction =>
    exact follows_repetition induction least most greedy
  | capture group body induction => exact follows_capture group induction
  | reference group =>
    intro text safe needed spot goals saved room
    rw [Code.ends, ← Option.toList_map]
    rw [Code.load] at room
    refine explores_at_most_one _ ?_ ?_ <;>
      cases found : (captured? spot.marks group).bind fun expected => pass? expected spot.here
    · simp [step, found]
    · simp [step, found]
    · simpa [found] using room
    · simpa [found] using room
  | look distance negated body induction => exact follows_look distance negated induction
  | atomic body induction =>
    intro text safe needed spot goals saved room
    have inside := explores_atomic (induction spot (.commit saved goals) saved room)
    exact (inside.led (leads_of_step rfl)).mono (by rw [Code.cost]; omega)

/-- With no goals left the search has matched. -/
theorem verdict_done (limit : Nat) (here : Cursor text) (marks : Marks text)
    (saved : Saved text) : verdict limit (.moving ⟨.done, here, marks, saved⟩) = .matched marks here := by
  rw [verdict, run, attempt]
  rfl

/-- Where a match is tried: its begin is marked. -/
def beginning (here : Cursor text) : Spot text := ⟨setMark [] 0 here, here⟩

/-- The preferred match that begins at a place. -/
def preferred (code : Code) (here : Cursor text) : Option (Spot text) :=
  (code.ends (beginning here)).head?

/-- A bound on the steps back of a search: those at each place up to the match, and one to
pass over each place without a match. -/
def searchCost (code : Code) (here : Cursor text) : Nat :=
  code.cost (beginning here) +
    if (code.ends (beginning here)).isEmpty then
      match _stepped : here.next? with
      | none => 1
      | some (_, further) => 1 + searchCost code further
    else 0
termination_by here.after.length
decreasing_by exact Cursor.length_after_of_next? _stepped

/-- How a search ends that is not given up. -/
def concluded (found : Option (Cursor text × Spot text)) : Verdict text :=
  match found with
  | some (_, spot) => .matched spot.marks spot.here
  | none => .failed

/-- The stack has room for the code wherever in the text it is tried. The place that it is
tried at is on the stack, too: the search can pass over it. -/
def Roomy (code : Code) (text : List Char) : Prop :=
  ∀ here : Cursor text, 1 + code.load (fun _ => 0) (beginning here) ≤ stackLimit

/-- To pass over a place, when the code has failed there. -/
def passing (code : Code) (passed : Nat) (here : Cursor text) : Goals text :=
  .run (.one .anything)
    (.iterate (.one .anything) 0 none false (passed + 1) (some here.index)
      (.mark 0 (.run code .done)))

/-- A search tries its code at the place where it is, and can still pass over it. -/
theorem leads_try (code : Code) (passed : Nat) {since : Option Nat} {here : Cursor text}
    (progress : ¬ since.any (here.index ≤ ·)) :
    Leads safe 0
      (.moving ⟨.iterate (.one .anything) 0 none false passed since (.mark 0 (.run code .done)),
        here, [], .none⟩)
      (.moving ⟨.run code .done, (beginning here).here, (beginning here).marks,
        Saved.none.push (passing code passed here) here []⟩) := by
  have entered : Leads safe 0
      (.moving ⟨.iterate (.one .anything) 0 none false passed since (.mark 0 (.run code .done)),
        here, [], .none⟩)
      (.moving ⟨.mark 0 (.run code .done), here, [],
        Saved.none.push (passing code passed here) here []⟩) :=
    leads_of_save (step_choice (by simp) (by simp) (by simpa using progress) false [] .none)
      fun _ => stackLimit_pos
  exact entered.trans (leads_of_step (by rfl))

/-- The rounds of a search, which passes over places until the code matches. -/
theorem verdict_search (limit : Nat) (code : Code) (passed : Nat) (since : Option Nat)
    (here : Cursor text) (progress : ¬ since.any (here.index ≤ ·)) :
    let stand := Stand.moving ⟨.iterate (.one .anything) 0 none false passed since
      (.mark 0 (.run code .done)), here, [], .none⟩
    (verdict limit stand = .overflown ∧ ¬ Roomy code text) ∨
      (verdict limit stand = .exhausted ∧ limit < searchCost code here) ∨
        verdict limit stand = concluded (leftmost (preferred code) here) := by
  generalize left : here.after.length = length
  induction length using Nat.strongRecOn generalizing limit passed since here with
  | ind length induction =>
    have begun : Leads (Roomy code text) 0 _ _ := leads_try code passed progress
    have tried := Explores.led begun
      (follows code (beginning here) .done (Saved.none.push (passing code passed here) here [])
        fun roomy => roomy here)
    rw [Nat.zero_add] at tried
    rw [searchCost, leftmost, preferred]
    generalize code.ends (beginning here) = ways at tried
    cases tried with
    | @next _ steps spot _ others _ _ reached _ _ behind bounded =>
      simp only [List.head?_cons, List.isEmpty_cons, Bool.false_eq_true, ↓reduceIte]
      rcases reached limit with overflown | moved
      · exact .inl overflown
      · rw [moved]
        split
        · exact .inr (.inl ⟨rfl, by omega⟩)
        · exact .inr (.inr (verdict_done _ _ _ _))
    | @finished _ steps _ failed bounded =>
      have back := failed.trans (leads_back (passing code passed here) here [] .none)
      simp only [List.head?_nil, List.isEmpty_nil, ↓reduceIte]
      cases stepped : here.next? with
      | none =>
        have ended : Leads (Roomy code text) 0 (.moving ⟨passing code passed here, here, [], .none⟩)
            (.failing .none) :=
          leads_of_failed (by simp [step, passing, stepped])
        rcases back.trans ended limit with overflown | moved
        · exact .inl overflown
        · rw [moved]
          simp only
          split
          · exact .inr (.inl ⟨rfl, by omega⟩)
          · exact .inr (.inr rfl)
      | some next =>
        obtain ⟨character, further⟩ := next
        have passedOver : Leads (Roomy code text) 0 (.moving ⟨passing code passed here, here, [], .none⟩)
            (.moving ⟨.iterate (.one .anything) 0 none false (passed + 1) (some here.index)
              (.mark 0 (.run code .done)), further, [], .none⟩) :=
          leads_of_step (by
            simp [step, passing, stepped, CharClass.anything, CharClass.contains,
              Unicode.Property.holds])
        have moved := Cursor.index_of_next? stepped
        have shorter := Cursor.length_after_of_next? stepped
        rcases back.trans passedOver limit with overflown | reached
        · exact .inl overflown
        · rw [reached]
          simp only
          split
          · exact .inr (.inl ⟨rfl, by omega⟩)
          · rename_i enough
            rcases induction _ (left ▸ shorter) (limit - (steps + 1 + 0)) (passed + 1)
              (some here.index) further (by simpa using by omega) rfl with
              overflown | ⟨exhausted, short⟩ | concluded
            · exact .inl overflown
            · exact .inr (.inl ⟨exhausted, by omega⟩)
            · exact .inr (.inr concluded)

/-- A search begins with the first of its rounds. -/
theorem leads_search (code : Code) (place : Cursor text) :
    Leads safe 0
      (.moving ⟨.run (.repetition (.one .anything) 0 none false) (.mark 0 (.run code .done)), place,
        [], .none⟩)
      (.moving ⟨.iterate (.one .anything) 0 none false 0 none (.mark 0 (.run code .done)), place,
        [], .none⟩) := leads_of_step (by rfl)

/-- A search finds the leftmost match of its code, and there the preferred one, unless it is
given up. It has the steps back that it can need unless they are fewer than its cost, and the
stack is large enough wherever it has room for the code. -/
theorem search_leftmost (limit : Nat) (code : Code) (place : Cursor text) :
    (search limit code place = .overflown ∧ ¬ Roomy code text) ∨
      (search limit code place = .exhausted ∧ limit < searchCost code place) ∨
        search limit code place = concluded (leftmost (preferred code) place) := by
  rcases leads_search code place limit with overflown | moved
  · exact .inl overflown
  · rw [if_neg (Nat.not_lt_zero _), Nat.sub_zero, verdict] at moved
    rw [search, moved]
    exact verdict_search limit code 0 none place (by simp)

end Machine

end Highlighter.Regex

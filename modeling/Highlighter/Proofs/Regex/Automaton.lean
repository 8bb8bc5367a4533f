import Highlighter.Proofs.Regex.Ways
import Highlighter.Regex.Automaton

/-!
# An automaton finds the first of its ways

Trying the edges of an automaton one after another, to the end of each before the next,
gives its ways of matching in order. The automaton does not do that: it follows all ways
at once and enters a station at most once at each place. `find_leftmost` says that it
finds the same, the preferred way at the first place that has one.

A front is worth the first outcome of its threads. The value of a front is what trying
the edges so far would have come to, and a station that is not entered again could only
repeat an outcome that has a preferred one already. Which expression an automaton was
built from does not matter here.
-/

namespace Highlighter.Regex.Automaton

open Text (Cursor)

variable {text : List Char} (automaton : Automaton)

/-- Where the matches end that the edges lead to, the preferred one first. -/
def ends (edges : List Edge) (here : Cursor text) : List (Cursor text) :=
  edges.flatMap fun edge =>
    if edge.conditions.all (·.holds here) then
      match edge.target with
      | none => [here]
      | some station =>
        match _stepped : here.next?, automaton.stations[station]? with
        | some (character, further), some found =>
          if found.set.contains character then ends found.edges further else []
        | _, _ => []
    else []
termination_by here.after.length
decreasing_by exact Cursor.length_after_of_next? _stepped

/-- The edges behind a station. -/
def edgesOf (station : Nat) : List Edge :=
  ((automaton.stations[station]?).map Station.edges).getD []

/-- The match that a thread comes to: its origin and its end. -/
def outcome (here : Cursor text) (thread : Thread text) : Option (Cursor text × Cursor text) :=
  (automaton.ends thread.edges here).head?.map (thread.origin, ·)

/-- The match that a search comes to which has entered a station with the next character. -/
def reachedOutcome (here : Cursor text) (entry : Nat × Cursor text) :
    Option (Cursor text × Cursor text) :=
  match here.next? with
  | none => none
  | some (_, further) => automaton.outcome further ⟨automaton.edgesOf entry.1, entry.2⟩

/-- The match that a front comes to. A station reached goes before an end. -/
def frontOutcome (here : Cursor text) (front : Front text) :
    Option (Cursor text × Cursor text) :=
  (front.reached.reverse.findSome? (automaton.reachedOutcome here)).or
    (front.ended.map (·, here))

theorem ends_nil (here : Cursor text) : automaton.ends [] here = [] := by
  rw [ends, List.flatMap_nil]

theorem ends_append (left right : List Edge) (here : Cursor text) :
    automaton.ends (left ++ right) here =
      automaton.ends left here ++ automaton.ends right here := by
  rw [ends, List.flatMap_append, ← ends, ← ends]

/-- The edge that ends with a match does so at once. -/
theorem ends_finish (here : Cursor text) : automaton.ends finish here = [here] := by
  rw [ends]
  simp [finish]

/-- An edge whose conditions do not hold leads nowhere. -/
theorem ends_refused {edge : Edge} {here : Cursor text}
    (refused : ¬ edge.conditions.all (·.holds here)) : automaton.ends [edge] here = [] := by
  rw [ends]
  simp only [List.flatMap_cons, List.flatMap_nil, List.append_nil, refused, Bool.false_eq_true,
    ↓reduceIte]

/-- An edge without a target ends where it is taken. -/
theorem ends_final {edge : Edge} {here : Cursor text} (taken : edge.conditions.all (·.holds here))
    (final : edge.target = none) : automaton.ends [edge] here = [here] := by
  rw [ends]
  simp only [List.flatMap_cons, List.flatMap_nil, List.append_nil, taken, final, ↓reduceIte]

/-- The edge leads to a station that takes the next character. -/
def Enters (here : Cursor text) (station : Nat) : Prop :=
  ∃ character further found, here.next? = some (character, further) ∧
    automaton.stations[station]? = some found ∧ found.set.contains character

/-- An edge to a station that does not take the next character leads nowhere. -/
theorem ends_blocked {edge : Edge} {here : Cursor text} {station : Nat}
    (target : edge.target = some station) (blocked : ¬ automaton.Enters here station) :
    automaton.ends [edge] here = [] := by
  rw [ends]
  simp only [List.flatMap_cons, List.flatMap_nil, List.append_nil, target]
  split
  · split
    · rename_i character further found stepped stationed
      split
      · rename_i contained
        exact absurd ⟨character, further, found, stepped, stationed, contained⟩ blocked
      · rfl
    · rfl
  · rfl

/-- An edge to a station that takes the next character goes on by the edges behind it. -/
theorem ends_entered {edge : Edge} {here : Cursor text} {station : Nat}
    (taken : edge.conditions.all (·.holds here)) (target : edge.target = some station)
    (enters : automaton.Enters here station) {character : Char} {further : Cursor text}
    (stepped : here.next? = some (character, further)) :
    automaton.ends [edge] here = automaton.ends (automaton.edgesOf station) further := by
  obtain ⟨_, _, found, steppedAgain, stationed, contained⟩ := enters
  obtain ⟨rfl, rfl⟩ : _ = character ∧ _ = further := by
    simpa [stepped, eq_comm] using steppedAgain
  rw [ends]
  simp only [List.flatMap_cons, List.flatMap_nil, List.append_nil, target, taken, ↓reduceIte,
    edgesOf, stationed, Option.map_some, Option.getD_some]
  split
  · rename_i actual behind actualFound passed stationedAgain
    obtain ⟨rfl, rfl⟩ : _ = actual ∧ _ = behind := by simpa [stepped] using passed
    simp_all
  · simp_all

/-- Every station that a front has marked as entered is among those reached. -/
def Tracked (front : Front text) : Prop :=
  ∀ station, front.members.testBit station → ∃ origin, (station, origin) ∈ front.reached

/-- The front with a station entered. -/
def entered (front : Front text) (station : Nat) (origin : Cursor text) : Front text :=
  { front with
    reached := (station, origin) :: front.reached
    members := front.members ||| (1 <<< station) }

/-- Following the first edge of a thread: a match that ends here, a station entered, or
nothing. -/
theorem follow_cons (here origin : Cursor text) (edge : Edge) (others : List Edge)
    (front : Front text) :
    let follow := automaton.follow here (here.next?.map Prod.fst) origin
    (¬ edge.conditions.all (·.holds here) ∧ follow (edge :: others) front = follow others front) ∨
    (edge.conditions.all (·.holds here) ∧ edge.target = none ∧
      follow (edge :: others) front = { front with ended := some origin }) ∨
    (edge.conditions.all (·.holds here) ∧ ∃ station, edge.target = some station ∧
      ((automaton.Enters here station ∧ ¬ front.members.testBit station ∧
        follow (edge :: others) front = follow others (entered front station origin)) ∨
      ((automaton.Enters here station → front.members.testBit station) ∧
        follow (edge :: others) front = follow others front))) := by
  by_cases taken : edge.conditions.all (·.holds here)
  · refine .inr ?_
    cases target : edge.target with
    | none => exact .inl ⟨taken, rfl, by simp [follow, taken, target]⟩
    | some station =>
      refine .inr ⟨taken, station, rfl, ?_⟩
      simp only [follow, taken, target, ↓reduceIte, Enters, entered]
      cases stepped : here.next? with
      | none => exact .inr ⟨by simp, by simp⟩
      | some step =>
        obtain ⟨character, further⟩ := step
        cases stationed : automaton.stations[station]? with
        | none => exact .inr ⟨by simp, by simp⟩
        | some found =>
          by_cases contained : found.set.contains character
          · by_cases member : front.members.testBit station
            · exact .inr ⟨fun _ => member, by simp [member]⟩
            · refine .inl ⟨⟨character, further, found, rfl, rfl, contained⟩, member, ?_⟩
              simp [member, contained]
          · exact .inr ⟨by simp [contained], by simp [contained]⟩
  · exact .inl ⟨taken, by simp [follow, taken]⟩

/-- Entering a station keeps the account of the stations. -/
theorem Tracked.entered {front : Front text} (tracked : Tracked front) (station : Nat)
    (origin : Cursor text) : Tracked (entered front station origin) := by
  intro other member
  by_cases same : station = other
  · subst same
    exact ⟨origin, List.mem_cons_self⟩
  · have earlier : front.members.testBit other := by
      simpa [Automaton.entered, Nat.one_shiftLeft, Nat.testBit_two_pow, same] using member
    obtain ⟨begun, listed⟩ := tracked other earlier
    exact ⟨begun, List.mem_cons_of_mem _ listed⟩

/-- The outcome of several edges is that of the first that has one. -/
theorem outcome_append (here origin : Cursor text) (left right : List Edge) :
    automaton.outcome here ⟨left ++ right, origin⟩ =
      (automaton.outcome here ⟨left, origin⟩).or (automaton.outcome here ⟨right, origin⟩) := by
  simp only [outcome, ends_append, List.head?_append]
  cases (automaton.ends left here).head? <;> simp

/-- A thread that enters a station has the outcome of the search from there. -/
theorem outcome_entered {here origin : Cursor text} {edge : Edge} {station : Nat}
    (taken : edge.conditions.all (·.holds here)) (target : edge.target = some station)
    (enters : automaton.Enters here station) :
    automaton.reachedOutcome here (station, origin) =
      automaton.outcome here ⟨[edge], origin⟩ := by
  have moved := enters
  obtain ⟨character, further, _, stepped, _⟩ := moved
  rw [outcome, automaton.ends_entered taken target enters stepped, reachedOutcome, stepped]
  rfl

/-- An edge to a station that is not entered again adds no outcome. -/
theorem outcome_absorbed {here : Cursor text} (origin : Cursor text) {edge : Edge}
    {station : Nat} {front : Front text} (taken : edge.conditions.all (·.holds here))
    (target : edge.target = some station) (tracked : Tracked front)
    (passed : automaton.Enters here station → front.members.testBit station) :
    (automaton.frontOutcome here front).or (automaton.outcome here ⟨[edge], origin⟩) =
      automaton.frontOutcome here front := by
  by_cases enters : automaton.Enters here station
  · obtain ⟨earlier, listed⟩ := tracked station (passed enters)
    cases valued : automaton.frontOutcome here front with
    | some result => rfl
    | none =>
      -- The earlier entry of the station has no outcome, so neither has this one.
      obtain ⟨unreached, _⟩ := Option.or_eq_none_iff.mp valued
      have fruitless := List.findSome?_eq_none_iff.mp unreached _ (List.mem_reverse.mpr listed)
      rw [automaton.outcome_entered taken target enters] at fruitless
      simpa [outcome] using fruitless
  · simp [outcome, automaton.ends_blocked target enters]

/-- Following the edges of a thread adds its outcome behind that of the front.

Proof: induction over the edges. An end makes the later edges irrelevant, a station entered
adds the outcome of the search from there, and any other edge adds nothing. -/
theorem follow_outcome (here origin : Cursor text) (edges : List Edge) (front : Front text)
    (tracked : Tracked front) (unended : front.ended = none) :
    let after := automaton.follow here (here.next?.map Prod.fst) origin edges front
    Tracked after ∧ automaton.frontOutcome here after =
      (automaton.frontOutcome here front).or (automaton.outcome here ⟨edges, origin⟩) := by
  induction edges generalizing front with
  | nil => exact ⟨tracked, by simp [follow, outcome, ends_nil]⟩
  | cons edge others induction =>
    have split := automaton.outcome_append here origin [edge] others
    rw [List.singleton_append] at split
    rcases automaton.follow_cons here origin edge others front with
      ⟨refused, followed⟩ | ⟨taken, final, followed⟩ |
        ⟨taken, station, target, ⟨enters, unseen, followed⟩ | ⟨seen, followed⟩⟩
    · rw [followed, split]
      simpa [outcome, automaton.ends_refused refused] using induction front tracked unended
    · rw [followed, split]
      refine ⟨tracked, ?_⟩
      simp [frontOutcome, unended, outcome, automaton.ends_final taken final]
    · rw [followed, split, ← Option.or_assoc,
        ← automaton.outcome_entered taken target enters]
      obtain ⟨kept, valued⟩ := induction (entered front station origin)
        (tracked.entered station origin) unended
      refine ⟨kept, valued.trans ?_⟩
      simp [frontOutcome, entered, unended]
    · rw [followed, split, ← Option.or_assoc,
        automaton.outcome_absorbed origin taken target tracked seen]
      exact induction front tracked unended

/-- Trying the threads in order leads to a front with the outcome of the first that has
one. -/
theorem advance_outcome (here : Cursor text) (threads : List (Thread text)) (front : Front text)
    (tracked : Tracked front) (unended : front.ended = none) :
    automaton.frontOutcome here
        (automaton.advance here (here.next?.map Prod.fst) threads front) =
      (automaton.frontOutcome here front).or (threads.findSome? (automaton.outcome here)) := by
  induction threads generalizing front with
  | nil => simp [advance]
  | cons thread others induction =>
    obtain ⟨kept, valued⟩ :=
      automaton.follow_outcome here thread.origin thread.edges front tracked unended
    have split : ((thread :: others).findSome? (automaton.outcome here)) =
        (automaton.outcome here thread).or (others.findSome? (automaton.outcome here)) := by
      rw [List.findSome?_cons]
      cases automaton.outcome here thread <;> rfl
    rw [advance, split, ← Option.or_assoc, ← valued]
    split
    · rename_i ended
      obtain ⟨origin, ended⟩ := Option.isSome_iff_exists.mp ended
      simp [frontOutcome, ended]
    · rename_i open_
      exact induction _ kept (by simpa using open_)

/-- An empty front has no outcome. -/
theorem front_outcome_empty (here : Cursor text) : automaton.frontOutcome here {} = none := rfl

/-- No station of an empty front has been entered. -/
theorem tracked_empty : Tracked ({} : Front text) := by
  intro station member
  simp at member

/-- At the end of the text only a match that ends there is an outcome. -/
theorem front_outcome_at_end {here : Cursor text} (atEnd : here.next? = none)
    (front : Front text) : automaton.frontOutcome here front = front.ended.map (·, here) := by
  have unreached : front.reached.reverse.findSome? (automaton.reachedOutcome here) = none :=
    List.findSome?_eq_none_iff.mpr fun entry _ => by simp [reachedOutcome, atEnd]
  simp [frontOutcome, unreached]

/-- The threads of a search at a place: those that came there, and one that begins there
unless a match has been found or the search is anchored. -/
def joined (anchored : Bool) (threads : List (Thread text))
    (best : Option (Cursor text × Cursor text)) (here : Cursor text) : List (Thread text) :=
  if best.isNone && !anchored then threads ++ [⟨automaton.start, here⟩] else threads

/-- The preferred end of the matches that begin at a place. -/
def preferred (place : Cursor text) : Option (Cursor text) :=
  (automaton.ends automaton.start place).head?

/-- What a search comes to that has threads and a match already: the outcome of the first
thread that has one, or the match, or the first match that begins here or behind. -/
def expected (anchored : Bool) (threads : List (Thread text))
    (best : Option (Cursor text × Cursor text)) (here : Cursor text) :
    Option (Cursor text × Cursor text) :=
  ((threads.findSome? (automaton.outcome here)).or best).or
    (if anchored then none else leftmost automaton.preferred here)

/-- The thread that begins at a place stands for the matches that begin there. -/
theorem expected_joined (anchored : Bool) (threads : List (Thread text))
    (best : Option (Cursor text × Cursor text)) (here : Cursor text) :
    automaton.expected anchored threads best here =
      (((automaton.joined anchored threads best here).findSome? (automaton.outcome here)).or
        best).or
      (match here.next? with
        | none => none
        | some (_, further) => if anchored then none else leftmost automaton.preferred further) := by
  unfold expected joined
  cases anchored with
  | true => cases here.next? <;> simp
  | false =>
    cases best with
    | some found => simp
    | none =>
      rw [leftmost]
      cases begun : automaton.preferred here with
      | none =>
        have fruitless : automaton.outcome here ⟨automaton.start, here⟩ = none := by
          rw [outcome, ← preferred, begun, Option.map_none]
        cases stepped : here.next? <;> simp [List.findSome?_append, fruitless]
      | some last =>
        have found : automaton.outcome here ⟨automaton.start, here⟩ = some (here, last) := by
          rw [outcome, ← preferred, begun, Option.map_some]
        simp [List.findSome?_append, found]

/-- One step of a search, with the front written as what it stands for. -/
theorem search_step (anchored : Bool) (threads : List (Thread text))
    (best : Option (Cursor text × Cursor text)) (here : Cursor text) :
    let front := automaton.advance here (here.next?.map Prod.fst)
      (automaton.joined anchored threads best here) {}
    let found := (front.ended.map (·, here)).or best
    automaton.search anchored threads best here =
      match here.next? with
      | none => found
      | some (_, further) =>
        if front.reached.isEmpty && (anchored || found.isSome) then found
        else automaton.search anchored
          (front.reached.reverse.map fun entry => ⟨automaton.edgesOf entry.1, entry.2⟩)
          found further := by
  rw [search]
  split
  · rename_i atEnd
    simp only [atEnd, Option.map_none, joined]
    generalize automaton.advance here none _ {} = front
    cases front.ended <;> rfl
  · rename_i character further stepped
    simp only [stepped, Option.map_some, joined]
    generalize automaton.advance here (some character) _ {} = front
    obtain ⟨reached, members, ended⟩ := front
    cases ended <;> rfl

/-- A search comes to what is expected of it.

Proof: induction over the text that is left. A front stands for its threads, by
`advance_outcome`. -/
theorem search_expected (anchored : Bool) (threads : List (Thread text))
    (best : Option (Cursor text × Cursor text)) (here : Cursor text) :
    automaton.search anchored threads best here = automaton.expected anchored threads best here := by
  generalize left : here.after.length = length
  induction length using Nat.strongRecOn generalizing threads best here with
  | ind length induction =>
    have front := automaton.advance_outcome here (automaton.joined anchored threads best here) {}
      tracked_empty rfl
    rw [front_outcome_empty, Option.none_or] at front
    rw [search_step, expected_joined, ← front]
    cases stepped : here.next? with
    | none =>
      rw [front_outcome_at_end _ stepped]
      simp
    | some step =>
      obtain ⟨character, further⟩ := step
      simp only [Option.map_some, frontOutcome]
      generalize automaton.advance here (some character) _ {} = front
      split
      · rename_i settled
        obtain ⟨unreached, settled⟩ := Bool.and_eq_true_iff.mp settled
        rw [List.isEmpty_iff.mp unreached]
        cases anchored with
        | true => simp
        | false =>
          rw [Bool.false_or] at settled
          obtain ⟨ends, found⟩ := Option.isSome_iff_exists.mp settled
          rw [found]
          simp [found]
      · have shorter := Cursor.length_after_of_next? stepped
        have later : (automaton.outcome further ∘ fun entry : Nat × Cursor text =>
            ⟨automaton.edgesOf entry.1, entry.2⟩) = automaton.reachedOutcome here := by
          funext entry
          simp [reachedOutcome, stepped]
        rw [induction _ (left ▸ shorter) _ _ further rfl, expected, List.findSome?_map, later,
          Option.or_assoc, Option.or_assoc, Option.or_assoc, Option.or_assoc]

/-- The search from a place on finds the leftmost match, and there the preferred end. -/
theorem find_leftmost (place : Cursor text) :
    automaton.find? place = leftmost automaton.preferred place := by
  rw [find?, search_expected]
  simp [expected]

/-- The match at a place is the one that is preferred there. -/
theorem match_preferred (place : Cursor text) :
    automaton.match? place = automaton.preferred place := by
  rw [match?, search_expected]
  simp [expected, outcome, preferred, Function.comp_def]

end Highlighter.Regex.Automaton

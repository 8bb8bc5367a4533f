import Highlighter.Proofs.Regex.Automaton
import Highlighter.Proofs.Regex.Meaning

/-!
# The automaton of an expression has the ways of the expression

A frame is an expression with numbers on the places that consume. Its ways are read off
it as those of an expression are. An automaton has these ways if its stations are the
stations of the frame, each with the edges that lie behind it there.

The edges behind a part are used for two things: they are taken at once where the part
needs no character, and they stand behind the stations of the part. These need not be
the same edges, since a repetition that begins again may not go on without consuming. So
`ends_entries` speaks of both.
-/

namespace Highlighter.Regex

open Text (Cursor)

variable {text : List Char}

namespace Frame

/-- Where the matches of the frame that begin at the place end, the preferred one first. -/
def ends : Frame → Cursor text → List (Cursor text)
  | empty, place => [place]
  | one _ set, place => set.ends place
  | assertion condition, place => if condition.holds place then [place] else []
  | sequence first second, place => (first.ends place).flatMap second.ends
  | either first second, place => first.ends place ++ second.ends place
  | optional greedy body, place => Regex.prefer greedy (body.ends place) [place]
  | many greedy body, place =>
    (body.ends place).flatMap (star (fun cursor => cursor) greedy body.ends)

/-- The stations of the automaton are those of the frame, with `rest` behind the frame. -/
def Placed (automaton : Automaton) : Frame → List Edge → Prop
  | empty, _ | assertion _, _ => True
  | one station set, rest => automaton.stations[station]? = some ⟨set, rest⟩
  | sequence first second, rest =>
    first.Placed automaton (second.entries rest) ∧ second.Placed automaton rest
  | either first second, rest => first.Placed automaton rest ∧ second.Placed automaton rest
  | optional _ body, rest => body.Placed automaton rest
  | many greedy body, rest => body.Placed automaton (prefer greedy (body.entries []) rest)

/-- What the frame repeats consumes, in every text. -/
def Consuming : Frame → Prop
  | empty | one _ _ | assertion _ => True
  | sequence first second | either first second => first.Consuming ∧ second.Consuming
  | optional _ body => body.Consuming
  | many _ body => body.Consuming ∧
    ∀ {text : List Char} (place last : Cursor text), last ∈ body.ends place → place.index < last.index

/-- A match of a frame does not end before its begin. -/
theorem index_le_of_mem_ends {frame : Frame} {place last : Cursor text}
    (reached : last ∈ frame.ends place) : place.index ≤ last.index := by
  induction frame generalizing place last with
  | empty =>
    obtain rfl : last = place := by simpa [ends] using reached
    exact Nat.le_refl _
  | one station set =>
    obtain ⟨character, stepped, _⟩ := CharClass.mem_ends.mp reached
    rw [Cursor.index_of_next? stepped]
    exact Nat.le_succ _
  | assertion condition =>
    obtain ⟨_, rfl⟩ : condition.holds place ∧ last = place := by simpa [ends] using reached
    exact Nat.le_refl _
  | sequence first second former latter =>
    obtain ⟨middle, inFirst, inSecond⟩ := List.mem_flatMap.mp reached
    exact Nat.le_trans (former inFirst) (latter inSecond)
  | either first second former latter =>
    rcases List.mem_append.mp reached with inFirst | inSecond
    · exact former inFirst
    · exact latter inSecond
  | optional greedy body induction =>
    rcases mem_prefer.mp reached with inBody | skipped
    · exact induction inBody
    · obtain rfl : last = place := by simpa using skipped
      exact Nat.le_refl _
  | many greedy body induction =>
    obtain ⟨middle, first, others⟩ := List.mem_flatMap.mp reached
    exact star_invariant (fun cursor => place.index ≤ cursor.index)
      (fun before behind passed member => Nat.le_trans passed (induction member))
      (induction first) others

end Frame

namespace Automaton

/-- A preference among edges is a preference among their ways. -/
theorem ends_prefer (automaton : Automaton) (greedy : Bool) (more fewer : List Edge)
    (here : Cursor text) :
    automaton.ends (Frame.prefer greedy more fewer) here =
      prefer greedy (automaton.ends more here) (automaton.ends fewer here) := by
  cases greedy <;> simp [Frame.prefer, prefer, ends_append]

/-- A condition on the edges is a condition on their ways. -/
theorem ends_conditioned (automaton : Automaton) (condition : Assertion) (edges : List Edge)
    (here : Cursor text) :
    automaton.ends (edges.map fun edge => { edge with conditions := condition :: edge.conditions })
        here = if condition.holds here then automaton.ends edges here else [] := by
  rw [ends, ends, List.flatMap_map]
  by_cases held : condition.holds here <;> simp [held]

/-- An edge to a station takes a character of its set and goes on behind it. -/
theorem ends_station (automaton : Automaton) {station : Nat} {set : CharClass} {rest : List Edge}
    (stationed : automaton.stations[station]? = some ⟨set, rest⟩) (here : Cursor text) :
    automaton.ends [⟨[], some station⟩] here = (set.ends here).flatMap (automaton.ends rest) := by
  by_cases enters : automaton.Enters here station
  · have taken := enters
    obtain ⟨character, further, found, stepped, listed, contained⟩ := taken
    obtain rfl : ⟨set, rest⟩ = found := Option.some.inj (stationed.symm.trans listed)
    rw [automaton.ends_entered rfl rfl enters stepped]
    simp [edgesOf, stationed, CharClass.ends, stepped, contained]
  · rw [automaton.ends_blocked rfl enters]
    have none : set.ends here = [] := by
      refine List.eq_nil_iff_forall_not_mem.mpr fun last reached => enters ?_
      obtain ⟨character, stepped, contained⟩ := CharClass.mem_ends.mp reached
      exact ⟨character, last, _, stepped, stationed, contained⟩
    rw [none, List.flatMap_nil]

end Automaton

namespace Frame

/-- The edges behind a way through a frame: those to be taken at once if the way has not
consumed anything, and those behind the frame otherwise. -/
def onward (automaton : Automaton) (begun : Cursor text) (atOnce rest : List Edge)
    (reached : Cursor text) : List (Cursor text) :=
  if reached.index = begun.index then automaton.ends atOnce reached
  else automaton.ends rest reached

/-- Behind the body of a repetition, its edges to begin again and those to go on come to
the ways of repeating it and going on.

Proof: induction over the text that is left. -/
theorem ends_repeating {automaton : Automaton} {body : Frame} (greedy : Bool)
    (consumes : ∀ place last : Cursor text, last ∈ body.ends place → place.index < last.index)
    {rest : List Edge}
    (entered : ∀ (atOnce : List Edge) (place : Cursor text),
      automaton.ends (body.entries atOnce) place = (body.ends place).flatMap
        (onward automaton place atOnce (prefer greedy (body.entries []) rest)))
    (here : Cursor text) :
    automaton.ends (prefer greedy (body.entries []) rest) here =
      (star (fun cursor => cursor) greedy body.ends here).flatMap (automaton.ends rest) := by
  induction here using star.induct (fun cursor : Cursor text => cursor) with
  | case1 here induction =>
    have again : automaton.ends (body.entries []) here =
        ((body.ends here).flatMap fun reached =>
          if here.index < reached.index then
            star (fun cursor => cursor) greedy body.ends reached
          else []).flatMap (automaton.ends rest) := by
      rw [entered, List.flatMap_assoc]
      refine List.flatMap_congr fun reached member => ?_
      have further := consumes here reached member
      rw [onward, if_neg (by omega), if_pos further, induction reached further]
    rw [automaton.ends_prefer, again, star]
    cases greedy <;> simp [Regex.prefer, List.flatMap_append]

/-- Entering a frame is taking a way through it and going on behind.

Proof: induction over the frame. -/
theorem ends_entries {automaton : Automaton} {frame : Frame} (consuming : frame.Consuming)
    {rest : List Edge} (placed : frame.Placed automaton rest) (atOnce : List Edge)
    (here : Cursor text) :
    automaton.ends (frame.entries atOnce) here =
      (frame.ends here).flatMap (onward automaton here atOnce rest) := by
  induction frame generalizing rest atOnce here with
  | empty => simp [entries, ends, onward]
  | one station set =>
    rw [entries, automaton.ends_station placed]
    refine List.flatMap_congr fun reached member => ?_
    obtain ⟨character, stepped, _⟩ := CharClass.mem_ends.mp member
    have moved := Cursor.index_of_next? stepped
    rw [onward, if_neg (by omega)]
  | assertion condition =>
    rw [entries, automaton.ends_conditioned, ends]
    split <;> simp [onward]
  | sequence first second former latter =>
    rw [entries, ends, former consuming.1 placed.1, List.flatMap_assoc]
    refine List.flatMap_congr fun middle member => ?_
    have passed := index_le_of_mem_ends member
    by_cases unmoved : middle.index = here.index
    · rw [onward, if_pos unmoved, latter consuming.2 placed.2]
      exact List.flatMap_congr fun reached _ => by rw [onward, onward, unmoved]
    · rw [onward, if_neg unmoved, latter consuming.2 placed.2]
      refine List.flatMap_congr fun reached member => ?_
      have onward_ := index_le_of_mem_ends member
      rw [onward, onward, if_neg (by omega : ¬ reached.index = here.index), ite_self]
  | either first second former latter =>
    rw [entries, ends, automaton.ends_append, former consuming.1 placed.1,
      latter consuming.2 placed.2, List.flatMap_append]
  | optional greedy body induction =>
    rw [entries, ends, automaton.ends_prefer, induction consuming placed]
    cases greedy <;> simp [Regex.prefer, onward]
  | many greedy body induction =>
    obtain ⟨inner, consumes⟩ := consuming
    have entered := induction inner placed
    rw [entries, ends, entered, List.flatMap_assoc]
    refine List.flatMap_congr fun middle member => ?_
    have further := consumes here middle member
    rw [onward, if_neg (by omega), ends_repeating greedy consumes entered]
    refine List.flatMap_congr fun reached repeats => ?_
    have behind : middle.index ≤ reached.index :=
      star_invariant (fun cursor => middle.index ≤ cursor.index)
        (fun before next passed inBody => Nat.le_trans passed (index_le_of_mem_ends inBody))
        (Nat.le_refl _) repeats
    rw [onward, if_neg (by omega)]

/-- The stations of the frame have the numbers from the first to the one before `next`, in
the order in which they stand. -/
def Numbered : Frame → Nat → Nat → Prop
  | empty, first, next | assertion _, first, next => next = first
  | one station _, first, next => station = first ∧ next = first + 1
  | sequence former latter, first, next | either former latter, first, next =>
    ∃ middle, former.Numbered first middle ∧ latter.Numbered middle next
  | optional _ body, first, next | many _ body, first, next => body.Numbered first next

/-- A frame has as many stations as numbers. -/
theorem Numbered.length_stations {frame : Frame} {first next : Nat}
    (numbered : frame.Numbered first next) (rest : List Edge) :
    first + (frame.stations rest).length = next := by
  induction frame generalizing first next rest with
  | empty | assertion condition => exact numbered.symm
  | one station set => exact numbered.2.symm
  | sequence former latter begun ended =>
    obtain ⟨middle, former, latter⟩ := numbered
    rw [stations, List.length_append, ← Nat.add_assoc, begun former, ended latter]
  | either former latter begun ended =>
    obtain ⟨middle, former, latter⟩ := numbered
    rw [stations, List.length_append, ← Nat.add_assoc, begun former, ended latter]
  | optional greedy body induction => exact induction numbered rest
  | many greedy body induction => exact induction numbered _

/-- The stations of the automaton, from a number on, are the listed ones. -/
def Lists (automaton : Automaton) (first : Nat) (stations : List Station) : Prop :=
  ∀ offset, offset < stations.length → automaton.stations[first + offset]? = stations[offset]?

/-- Stations listed one part after the other are listed part by part. -/
theorem Lists.append {automaton : Automaton} {first middle : Nat} {former latter : List Station}
    (lists : Lists automaton first (former ++ latter)) (begun : first + former.length = middle) :
    Lists automaton first former ∧ Lists automaton middle latter := by
  subst begun
  constructor
  · intro offset inside
    rw [lists offset (by rw [List.length_append]; omega), List.getElem?_append_left inside]
  · intro offset inside
    have listed := lists (former.length + offset) (by rw [List.length_append]; omega)
    rw [List.getElem?_append_right (Nat.le_add_right _ _), Nat.add_sub_cancel_left] at listed
    rwa [Nat.add_assoc]

/-- The stations of a frame stand in the automaton where their numbers say. -/
theorem Numbered.placed {automaton : Automaton} {frame : Frame} {first next : Nat}
    (numbered : frame.Numbered first next) {rest : List Edge}
    (lists : Lists automaton first (frame.stations rest)) : frame.Placed automaton rest := by
  induction frame generalizing first next rest with
  | empty | assertion condition => trivial
  | one station set =>
    obtain ⟨rfl, _⟩ := numbered
    simpa [stations, Placed] using lists 0 (by simp [stations])
  | sequence former latter begun ended =>
    obtain ⟨middle, former, latter⟩ := numbered
    obtain ⟨inFormer, inLatter⟩ := lists.append (former.length_stations _)
    exact ⟨begun former inFormer, ended latter inLatter⟩
  | either former latter begun ended =>
    obtain ⟨middle, former, latter⟩ := numbered
    obtain ⟨inFormer, inLatter⟩ := lists.append (former.length_stations _)
    exact ⟨begun former inFormer, ended latter inLatter⟩
  | optional greedy body induction => exact induction numbered lists
  | many greedy body induction => exact induction numbered lists

/-- Copies numbered each for itself are numbered together. -/
theorem numbered_copies {copy last : Nat → Frame × Nat}
    (copied : ∀ fresh, (copy fresh).1.Numbered fresh (copy fresh).2)
    (ended : ∀ fresh, (last fresh).1.Numbered fresh (last fresh).2) (count fresh : Nat) :
    (copies copy last count fresh).1.Numbered fresh (copies copy last count fresh).2 := by
  induction count generalizing fresh with
  | zero => exact ended fresh
  | succ count induction => exact ⟨_, copied fresh, induction _⟩

/-- Optional copies numbered each for itself are numbered together. -/
theorem numbered_optionals {greedy : Bool} {copy : Nat → Frame × Nat}
    (copied : ∀ fresh, (copy fresh).1.Numbered fresh (copy fresh).2) (count fresh : Nat) :
    (optionals greedy copy count fresh).1.Numbered fresh (optionals greedy copy count fresh).2 := by
  induction count generalizing fresh with
  | zero => rfl
  | succ count induction => exact ⟨_, copied fresh, induction _⟩

/-- The frame of an expression uses the numbers from the given one on. -/
theorem numbered_of_expr (expression : Expr) (fresh : Nat) :
    (ofExpr expression fresh).1.Numbered fresh (ofExpr expression fresh).2 := by
  induction expression generalizing fresh with
  | empty => rfl
  | one set => exact ⟨rfl, rfl⟩
  | assertion condition => rfl
  | sequence first second former latter => exact ⟨_, former fresh, latter _⟩
  | either first second former latter => exact ⟨_, former fresh, latter _⟩
  | repetition body least most greedy induction =>
    cases most with
    | some most => exact numbered_copies induction (numbered_optionals induction _) _ _
    | none =>
      rw [ofExpr]
      simp only
      split
      · exact induction fresh
      · refine numbered_copies induction ?_ _ _
        exact fun later => induction later
  | capture group body induction => exact induction fresh
  | group body induction => exact induction fresh
  | look direction negated body induction => rfl
  | atomic body induction => exact induction fresh
  | reference group => rfl

/-- Copies have the ways of so many rounds, and behind them those of the last frame. -/
theorem ends_copies {copy last : Nat → Frame × Nat} {body behind : Cursor text → List (Cursor text)}
    (copied : ∀ fresh place, (copy fresh).1.ends place = body place)
    (ended : ∀ fresh place, (last fresh).1.ends place = behind place) (count fresh : Nat)
    (place : Cursor text) :
    (copies copy last count fresh).1.ends place = (times body count place).flatMap behind := by
  induction count generalizing fresh place with
  | zero => simp [copies, times, ended]
  | succ count induction =>
    simp only [copies, ends, times, List.flatMap_assoc, copied]
    congr 1
    funext reached
    exact induction _ reached

/-- Optional copies have the ways of up to so many rounds. -/
theorem ends_optionals {greedy : Bool} {copy : Nat → Frame × Nat}
    {body : Cursor text → List (Cursor text)}
    (copied : ∀ fresh place, (copy fresh).1.ends place = body place) (count fresh : Nat)
    (place : Cursor text) :
    (optionals greedy copy count fresh).1.ends place = upTo greedy body count place := by
  induction count generalizing fresh place with
  | zero => rfl
  | succ count induction =>
    simp only [optionals, ends, upTo, copied]
    congr 2
    funext reached
    exact induction _ reached

/-- Copies are consuming as what is copied is. -/
theorem consuming_copies {copy last : Nat → Frame × Nat}
    (copied : ∀ fresh, (copy fresh).1.Consuming) (ended : ∀ fresh, (last fresh).1.Consuming)
    (count fresh : Nat) : (copies copy last count fresh).1.Consuming := by
  induction count generalizing fresh with
  | zero => exact ended fresh
  | succ count induction => exact ⟨copied fresh, induction _⟩

/-- Optional copies are consuming as what is copied is. -/
theorem consuming_optionals {greedy : Bool} {copy : Nat → Frame × Nat}
    (copied : ∀ fresh, (copy fresh).1.Consuming) (count fresh : Nat) :
    (optionals greedy copy count fresh).1.Consuming := by
  induction count generalizing fresh with
  | zero => trivial
  | succ count induction => exact ⟨copied fresh, induction _⟩

/-- The frame of a repetition has its ways if the frames of its body have theirs. The bounds
are written out as copies. They are not capped, because what is repeated consumes. -/
theorem ends_of_repetition {body : Expr} {least : Nat} {most : Option Nat} {greedy : Bool}
    (tame : (Expr.repetition body least most greedy).tame)
    (copied : ∀ fresh, (ofExpr body fresh).1.Consuming ∧
      ∀ {text : List Char} (place : Cursor text),
        (ofExpr body fresh).1.ends place = body.ends place) (fresh : Nat) :
    (ofExpr (.repetition body least most greedy) fresh).1.Consuming ∧
      ∀ {text : List Char} (place : Cursor text),
        (ofExpr (.repetition body least most greedy) fresh).1.ends place =
          (Expr.repetition body least most greedy).ends place := by
  simp only [Expr.tame, Bool.and_eq_true, decide_eq_true_eq] at tame
  obtain ⟨⟨tameBody, positive⟩, bounds⟩ := tame
  have consumes {text : List Char} (place last : Cursor text) (member : last ∈ body.ends place) :
      place.index < last.index := by
    have taken := Expr.minimal_length_le tameBody member
    omega
  have something : body.consumesNothing = false := by
    cases nothing : body.consumesNothing with
    | false => rfl
    | true =>
      have empty := Expr.minimal_length_of_consumes_nothing tameBody nothing
      omega
  have manyConsuming (later : Nat) : (many greedy (ofExpr body later).1).Consuming :=
    ⟨(copied later).1, fun place last member => by
      rw [(copied later).2] at member
      exact consumes place last member⟩
  have manyEnds (later : Nat) {text : List Char} (place : Cursor text) :
      (many greedy (ofExpr body later).1).ends place =
        (body.ends place).flatMap (star (fun cursor => cursor) greedy body.ends) := by
    have same : (ofExpr body later).1.ends = @Expr.ends text body := funext (copied later).2
    rw [ends, same]
  cases most with
  | some most =>
    simp only [ofExpr, something, Bool.false_eq_true, ↓reduceIte, Expr.ends, repeated]
    constructor
    · exact consuming_copies (fun later => (copied later).1)
        (consuming_optionals (fun later => (copied later).1) _) _ _
    · intro text place
      rw [Nat.min_eq_left (by simpa using bounds)]
      exact ends_copies (fun later => (copied later).2)
        (ends_optionals (fun later => (copied later).2) _) _ _ _
  | none =>
    simp only [ofExpr, something, Bool.false_eq_true, ↓reduceIte, Expr.ends, repeated]
    cases least with
    | zero =>
      refine ⟨manyConsuming fresh, fun place => ?_⟩
      rw [ends, manyEnds, times, List.flatMap_singleton, ← star_of_consuming consumes]
    | succ count =>
      constructor
      · exact consuming_copies (fun later => (copied later).1) manyConsuming _ _
      · intro text place
        rw [times_succ, List.flatMap_assoc]
        exact ends_copies (fun later => (copied later).2) (fun later => manyEnds later) _ _ _

/-- The frame of a tame expression has its ways, and what it repeats consumes.

Proof: induction over the expression. -/
theorem ends_of_expr {expression : Expr} (tame : expression.tame) {referred : List Nat}
    (plain : expression.needsChoices referred = false) (fresh : Nat) :
    (ofExpr expression fresh).1.Consuming ∧
      ∀ {text : List Char} (place : Cursor text),
        (ofExpr expression fresh).1.ends place = expression.ends place := by
  induction expression generalizing fresh with
  | empty => exact ⟨trivial, fun _ => rfl⟩
  | one set => exact ⟨trivial, fun _ => rfl⟩
  | assertion condition => exact ⟨trivial, fun _ => rfl⟩
  | sequence first second former latter =>
    simp only [Expr.needsChoices, Bool.or_eq_false_iff] at plain
    obtain ⟨tameFirst, tameSecond⟩ := Bool.and_eq_true_iff.mp tame
    have begun := former tameFirst plain.1 fresh
    have ended := latter tameSecond plain.2 (ofExpr first fresh).2
    refine ⟨⟨begun.1, ended.1⟩, fun place => ?_⟩
    rw [ofExpr, ends, begun.2, Expr.ends]
    congr 1
    funext reached
    exact ended.2 reached
  | either first second former latter =>
    simp only [Expr.needsChoices, Bool.or_eq_false_iff] at plain
    obtain ⟨tameFirst, tameSecond⟩ := Bool.and_eq_true_iff.mp tame
    have begun := former tameFirst plain.1 fresh
    have ended := latter tameSecond plain.2 (ofExpr first fresh).2
    exact ⟨⟨begun.1, ended.1⟩, fun place => by rw [ofExpr, ends, begun.2, ended.2, Expr.ends]⟩
  | repetition body least most greedy induction =>
    have tameBody : body.tame := by
      simp only [Expr.tame, Bool.and_eq_true] at tame
      exact tame.1.1
    exact ends_of_repetition tame (induction tameBody plain) fresh
  | capture group body induction =>
    simp only [Expr.needsChoices, Bool.or_eq_false_iff] at plain
    exact induction tame plain.2 fresh
  | group body induction => exact induction tame plain fresh
  | look direction negated body induction => simp [Expr.needsChoices] at plain
  | atomic body induction => simp [Expr.needsChoices] at plain
  | reference group => simp [Expr.needsChoices] at plain

end Frame

/-- The automaton of a tame expression without lookarounds has the ways of the expression. -/
theorem Automaton.ends_of_expr {expression : Expr} (tame : expression.tame)
    {referred : List Nat} (plain : expression.needsChoices referred = false)
    (place : Cursor text) :
    (Automaton.ofExpr expression).ends (Automaton.ofExpr expression).start place =
      expression.ends place := by
  obtain ⟨consuming, same⟩ := Frame.ends_of_expr tame plain 0
  have numbered := Frame.numbered_of_expr expression 0
  have placed : (Frame.ofExpr expression 0).1.Placed (Automaton.ofExpr expression) finish := by
    refine numbered.placed fun offset inside => ?_
    simp [Automaton.ofExpr]
  have entered := Frame.ends_entries consuming placed finish place
  have finished : Frame.onward (Automaton.ofExpr expression) place finish finish =
      fun reached => [reached] := by
    funext reached
    rw [Frame.onward, ite_self, ends_finish]
  rw [finished, List.flatMap_singleton', same] at entered
  exact entered

end Highlighter.Regex

import Highlighter.Proofs.Text.Cursor
import Mathlib

/-!
# Ways of matching, in the order in which they are tried

The meaning of a pattern, whatever matches it, is the list of places where its match can
end, the preferred one first. Repetitions build such lists from the ways of their body.
They are stated for any kind of place that has a cursor, because a matcher may carry more
than the cursor along.

Two lists are alike if trying their members in order always comes to the same. So a place
that comes a second time does not count. Like lists may be exchanged inside all the ways
of putting lists together, which is why a matcher may forget repeated outcomes.
-/

namespace Highlighter.Regex

open Text (Cursor)

variable {text : List Char} {Place : Type}

/-- Put an alternative before or behind the others, as a repetition prefers. -/
def prefer (greedy : Bool) (more fewer : List Place) : List Place :=
  if greedy then more ++ fewer else fewer ++ more

/-- The ways of matching a number of times in a row. -/
def times (body : Place → List Place) : Nat → Place → List Place
  | 0, place => [place]
  | count + 1, place => (body place).flatMap (times body count)

/-- The ways of matching up to a number of times in a row. -/
def upTo (greedy : Bool) (body : Place → List Place) : Nat → Place → List Place
  | 0, place => [place]
  | count + 1, place => prefer greedy ((body place).flatMap (upTo greedy body count)) [place]

/-- The ways of matching any number of times in a row, each of them consuming. -/
def star (cursor : Place → Cursor text) (greedy : Bool) (body : Place → List Place)
    (place : Place) : List Place :=
  prefer greedy
    ((body place).flatMap fun reached =>
      if _further : (cursor place).index < (cursor reached).index then
        star cursor greedy body reached
      else [])
    [place]
termination_by text.length - (cursor place).index
decreasing_by
  have bounded := (cursor reached).index_le_length
  omega

/-- The ways of matching a repetition. -/
def repeated (cursor : Place → Cursor text) (body : Place → List Place) (least : Nat)
    (most : Option Nat) (greedy : Bool) (place : Place) : List Place :=
  match most with
  | none => (times body least place).flatMap (star cursor greedy body)
  | some most => (times body (min least most) place).flatMap (upTo greedy body (most - least))

/-- The first place from the given one on at which the attempt has a result, with that
result. -/
def leftmost {Result : Type} (attempt : Cursor text → Option Result) (here : Cursor text) :
    Option (Cursor text × Result) :=
  match attempt here with
  | some result => some (here, result)
  | none =>
    match _stepped : here.next? with
    | none => none
    | some (_, further) => leftmost attempt further
termination_by here.after.length
decreasing_by exact Cursor.length_after_of_next? _stepped

theorem mem_prefer {greedy : Bool} {more fewer : List Place} {place : Place} :
    place ∈ prefer greedy more fewer ↔ place ∈ more ∨ place ∈ fewer := by
  unfold prefer
  split <;> simp [or_comm]

/-- What the body takes from one round to the next holds after a number of rounds. -/
theorem times_invariant {body : Place → List Place} (invariant : Nat → Place → Prop)
    (kept : ∀ round place reached, invariant round place → reached ∈ body place →
      invariant (round + 1) reached)
    {count : Nat} {place last : Place} (begun : invariant 0 place)
    (reached : last ∈ times body count place) : invariant count last := by
  have later (round : Nat) (earlier : Place) (held : invariant round earlier)
      (ended : last ∈ times body count earlier) : invariant (round + count) last := by
    clear reached begun
    induction count generalizing round earlier with
    | zero =>
      obtain rfl : last = earlier := by simpa [times] using ended
      exact held
    | succ count induction =>
      obtain ⟨middle, first, others⟩ := List.mem_flatMap.mp ended
      have next := induction (round + 1) middle (kept round earlier middle held first) others
      rwa [Nat.add_assoc, Nat.add_comm 1 count] at next
  simpa using later 0 place begun reached

/-- What the body keeps is kept by up to a number of rounds. -/
theorem up_to_invariant {greedy : Bool} {body : Place → List Place} (invariant : Place → Prop)
    (kept : ∀ place reached, invariant place → reached ∈ body place → invariant reached)
    {count : Nat} {place last : Place} (begun : invariant place)
    (reached : last ∈ upTo greedy body count place) : invariant last := by
  induction count generalizing place with
  | zero =>
    obtain rfl : last = place := by simpa [upTo] using reached
    exact begun
  | succ count induction =>
    rcases mem_prefer.mp reached with more | fewer
    · obtain ⟨middle, first, others⟩ := List.mem_flatMap.mp more
      exact induction (kept place middle begun first) others
    · obtain rfl : last = place := by simpa using fewer
      exact begun

/-- What the body keeps is kept by any number of rounds. -/
theorem star_invariant {cursor : Place → Cursor text} {greedy : Bool}
    {body : Place → List Place} (invariant : Place → Prop)
    (kept : ∀ place reached, invariant place → reached ∈ body place → invariant reached)
    {place last : Place} (begun : invariant place)
    (reached : last ∈ star cursor greedy body place) : invariant last := by
  induction place using star.induct cursor with
  | case1 place induction =>
    rw [star] at reached
    rcases mem_prefer.mp reached with more | fewer
    · obtain ⟨middle, first, others⟩ := List.mem_flatMap.mp more
      split at others
      · rename_i further
        exact induction middle further (kept place middle begun first) others
      · simp at others
    · obtain rfl : last = place := by simpa using fewer
      exact begun

/-- What the body keeps is kept by a repetition. -/
theorem repeated_invariant {cursor : Place → Cursor text} {body : Place → List Place}
    (invariant : Place → Prop)
    (kept : ∀ place reached, invariant place → reached ∈ body place → invariant reached)
    {least : Nat} {most : Option Nat} {greedy : Bool} {place last : Place}
    (begun : invariant place) (reached : last ∈ repeated cursor body least most greedy place) :
    invariant last := by
  cases most with
  | none =>
    obtain ⟨middle, required, others⟩ := List.mem_flatMap.mp reached
    exact star_invariant invariant kept
      (times_invariant (fun _ => invariant) (fun _ => kept) begun required) others
  | some most =>
    obtain ⟨middle, required, others⟩ := List.mem_flatMap.mp reached
    exact up_to_invariant invariant kept
      (times_invariant (fun _ => invariant) (fun _ => kept) begun required) others

/-- One round more may be the first or the last. -/
theorem times_succ (body : Place → List Place) (count : Nat) (place : Place) :
    times body (count + 1) place = (times body count place).flatMap body := by
  induction count generalizing place with
  | zero => simp [times]
  | succ count induction =>
    rw [times, times, List.flatMap_assoc]
    congr 1
    funext reached
    exact induction reached

/-- If the body always consumes, nothing has to be said about it in a repetition. -/
theorem star_of_consuming {cursor : Place → Cursor text} {body : Place → List Place}
    (consumes : ∀ place reached, reached ∈ body place →
      (cursor place).index < (cursor reached).index)
    (greedy : Bool) (place : Place) :
    star cursor greedy body place =
      prefer greedy ((body place).flatMap (star cursor greedy body)) [place] := by
  rw [star]
  congr 1
  exact List.flatMap_congr fun reached member => if_pos (consumes place reached member)

/-- A repetition may end where it begins. -/
theorem mem_star_self {cursor : Place → Cursor text} {greedy : Bool} {body : Place → List Place}
    (place : Place) : place ∈ star cursor greedy body place := by
  rw [star]
  exact mem_prefer.mpr (.inr (List.mem_singleton_self _))

/-- A repetition may end where it can end behind a round. -/
theorem mem_star_of_round {cursor : Place → Cursor text} {greedy : Bool}
    {body : Place → List Place} {place reached last : Place} (round : reached ∈ body place)
    (further : (cursor place).index < (cursor reached).index)
    (ended : last ∈ star cursor greedy body reached) : last ∈ star cursor greedy body place := by
  rw [star]
  refine mem_prefer.mpr (.inl (List.mem_flatMap.mpr ⟨reached, round, ?_⟩))
  rw [dif_pos further]
  exact ended

/-- The preferred way of a greedy repetition goes on for as long as its body matches. -/
theorem star_head_stops {cursor : Place → Cursor text} {body : Place → List Place}
    (consumes : ∀ place reached, reached ∈ body place →
      (cursor place).index < (cursor reached).index)
    {place last : Place} (preferred : (star cursor true body place).head? = some last) :
    body last = [] := by
  induction place using star.induct cursor with
  | case1 place induction =>
    rw [star_of_consuming consumes] at preferred
    cases listed : body place with
    | nil =>
      rw [listed] at preferred
      obtain rfl : place = last := by simpa [prefer] using preferred
      exact listed
    | cons reached others =>
      refine induction reached (consumes place reached (by simp [listed])) ?_
      rw [listed] at preferred
      cases ways : star cursor true body reached with
      | nil =>
        rw [star] at ways
        simp [prefer] at ways
      | cons first further => simpa [prefer, ways] using preferred

/-- Trying the places in order comes to the same for both lists. -/
def Alike (left right : List Place) : Prop :=
  ∀ ⦃Result : Type⦄ (attempt : Place → Option Result),
    left.findSome? attempt = right.findSome? attempt

namespace Alike

theorem refl (places : List Place) : Alike places places := fun _ _ => rfl

theorem symm {left right : List Place} (alike : Alike left right) : Alike right left :=
  fun _ attempt => (alike attempt).symm

theorem append {left right left' right' : List Place} (former : Alike left left')
    (latter : Alike right right') : Alike (left ++ right) (left' ++ right') := by
  intro Result attempt
  rw [List.findSome?_append, List.findSome?_append, former, latter]

theorem map {Other : Type} {left right : List Place} (alike : Alike left right)
    (read : Place → Other) : Alike (left.map read) (right.map read) := by
  intro Result attempt
  rw [List.findSome?_map, List.findSome?_map, alike]

theorem prefer {greedy : Bool} {more fewer more' fewer' : List Place}
    (former : Alike more more') (latter : Alike fewer fewer') :
    Alike (prefer greedy more fewer) (prefer greedy more' fewer') := by
  cases greedy
  · exact latter.append former
  · exact former.append latter

end Alike

/-- Trying what follows each place is trying it within the attempt at the place. -/
theorem find_some_flat_map {Result : Type} (places : List Place) (behind : Place → List Place)
    (attempt : Place → Option Result) :
    (places.flatMap behind).findSome? attempt =
      places.findSome? fun place => (behind place).findSome? attempt := by
  induction places with
  | nil => rfl
  | cons place others induction =>
    rw [List.flatMap_cons, List.findSome?_append, List.findSome?_cons, induction]
    cases (behind place).findSome? attempt <;> rfl

namespace Alike

theorem flat_map {left right : List Place} {behind behind' : Place → List Place}
    (former : Alike left right) (latter : ∀ place, Alike (behind place) (behind' place)) :
    Alike (left.flatMap behind) (right.flatMap behind') := by
  intro Result attempt
  rw [find_some_flat_map, find_some_flat_map, former]
  congr 1
  funext place
  exact latter place attempt

theorem times {body body' : Place → List Place} (same : ∀ place, Alike (body place) (body' place))
    (count : Nat) (place : Place) : Alike (times body count place) (times body' count place) := by
  induction count generalizing place with
  | zero => exact refl _
  | succ count induction => exact flat_map (same place) induction

theorem up_to {greedy : Bool} {body body' : Place → List Place}
    (same : ∀ place, Alike (body place) (body' place)) (count : Nat) (place : Place) :
    Alike (upTo greedy body count place) (upTo greedy body' count place) := by
  induction count generalizing place with
  | zero => exact refl _
  | succ count induction => exact prefer (flat_map (same place) induction) (refl _)

theorem star {cursor : Place → Cursor text} {greedy : Bool} {body body' : Place → List Place}
    (same : ∀ place, Alike (body place) (body' place)) (place : Place) :
    Alike (star cursor greedy body place) (star cursor greedy body' place) := by
  induction place using Regex.star.induct cursor with
  | case1 place induction =>
    rw [Regex.star, Regex.star]
    refine prefer (flat_map (same place) fun reached => ?_) (refl _)
    split
    · rename_i further
      exact induction reached further
    · exact refl _

theorem repeated {cursor : Place → Cursor text} {body body' : Place → List Place}
    (same : ∀ place, Alike (body place) (body' place)) (least : Nat) (most : Option Nat)
    (greedy : Bool) (place : Place) :
    Alike (repeated cursor body least most greedy place)
      (repeated cursor body' least most greedy place) := by
  cases most with
  | none => exact flat_map (times same least place) (star same)
  | some most => exact flat_map (times same (min least most) place) (up_to same (most - least))

/-- Like lists have the same first place. -/
theorem head {left right : List Place} (alike : Alike left right) : left.head? = right.head? := by
  have first (places : List Place) : places.findSome? some = places.head? := by
    cases places <;> rfl
  rw [← first, ← first, alike]

/-- Places that are all the same count once. -/
theorem of_same {places : List Place} (place : Place) (same : ∀ other ∈ places, other = place) :
    Alike places places.head?.toList := by
  intro Result attempt
  cases places with
  | nil => rfl
  | cons first others =>
    obtain rfl := same first List.mem_cons_self
    simp only [List.findSome?_cons, List.head?_cons, Option.toList_some, List.findSome?_nil]
    cases tried : attempt first with
    | some result => rfl
    | none =>
      refine List.findSome?_eq_none_iff.mpr fun other listed => ?_
      rw [same other (List.mem_cons_of_mem _ listed), tried]

end Alike

section Leftmost

variable {Result : Type} {attempt : Cursor text → Option Result} {here : Cursor text}

/-- A result at the place itself is the leftmost one. -/
theorem leftmost_of_some {result : Result} (tried : attempt here = some result) :
    leftmost attempt here = some (here, result) := by
  rw [leftmost, tried]

/-- At the end of the text there is no other place. -/
theorem leftmost_at_end (tried : attempt here = none) (atEnd : here.next? = none) :
    leftmost attempt here = none := by
  rw [leftmost, tried]
  simp only
  split <;> simp_all

/-- Without a result at the place, the leftmost one is found from the next place on. -/
theorem leftmost_of_next (tried : attempt here = none) {character : Char}
    {further : Cursor text} (stepped : here.next? = some (character, further)) :
    leftmost attempt here = leftmost attempt further := by
  rw [leftmost, tried]
  simp only
  split <;> simp_all

/-- The leftmost result is at the first place from the given one on that has one. -/
theorem leftmost_some {first : Cursor text} {result : Result}
    (found : leftmost attempt here = some (first, result)) :
    here.index ≤ first.index ∧ attempt first = some result ∧
      ∀ place, here.index ≤ place.index → place.index < first.index → attempt place = none := by
  induction here using leftmost.induct attempt with
  | case1 here other tried =>
    rw [leftmost_of_some tried] at found
    obtain ⟨rfl, rfl⟩ : here = first ∧ other = result := by simpa using found
    exact ⟨Nat.le_refl _, tried, fun place behind before => by omega⟩
  | case2 here tried atEnd =>
    rw [leftmost_at_end tried atEnd] at found
    cases found
  | case3 here tried character further stepped induction =>
    rw [leftmost_of_next tried stepped] at found
    obtain ⟨behind, attempted, earlier⟩ := induction found
    have moved := Cursor.index_of_next? stepped
    refine ⟨by omega, attempted, fun place reached before => ?_⟩
    by_cases same : place.index = here.index
    · rw [Cursor.eq_of_index same]
      exact tried
    · exact earlier place (by omega) before

/-- If there is no leftmost result there is none at any place. -/
theorem leftmost_none (missing : leftmost attempt here = none) {place : Cursor text}
    (behind : here.index ≤ place.index) : attempt place = none := by
  induction here using leftmost.induct attempt with
  | case1 here other tried =>
    rw [leftmost_of_some tried] at missing
    cases missing
  | case2 here tried atEnd =>
    have bounded := place.index_le_length
    have remaining := here.length_after
    rw [(Cursor.next_none_iff here).mp atEnd, List.length_nil] at remaining
    have inside := here.index_le_length
    rw [Cursor.eq_of_index (by omega : place.index = here.index)]
    exact tried
  | case3 here tried character further stepped induction =>
    rw [leftmost_of_next tried stepped] at missing
    have moved := Cursor.index_of_next? stepped
    by_cases same : place.index = here.index
    · rw [Cursor.eq_of_index same]
      exact tried
    · exact induction missing (by omega)

/-- Changing the results changes the leftmost one. -/
theorem leftmost_map {Other : Type} {other : Cursor text → Option Other}
    (read : Cursor text → Result → Other)
    (same : ∀ place, other place = (attempt place).map (read place)) (here : Cursor text) :
    leftmost other here =
      (leftmost attempt here).map fun found => (found.1, read found.1 found.2) := by
  induction here using leftmost.induct attempt with
  | case1 here found tried =>
    rw [leftmost_of_some tried, leftmost_of_some ((same here).trans (by rw [tried]; rfl))]
    rfl
  | case2 here tried atEnd =>
    have missing : other here = none := by rw [same, tried]; rfl
    rw [leftmost_at_end tried atEnd, leftmost_at_end missing atEnd]
    rfl
  | case3 here tried character further stepped induction =>
    have missing : other here = none := by rw [same, tried]; rfl
    rw [leftmost_of_next tried stepped, leftmost_of_next missing stepped, induction]

end Leftmost

end Highlighter.Regex

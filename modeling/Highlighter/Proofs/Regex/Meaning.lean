import Highlighter.Proofs.Regex.Ways
import Highlighter.Regex.Shape

/-!
# What an expression matches

`Expr.ends` lists where the matches of an expression that begin at a place can end, the
preferred one first. It is read off the expression alone and knows neither automata nor
the machine; that the matchers find what it lists is shown where each of them is treated.
A search for the expression finds its leftmost match, and there the preferred one.

References, atomic groups and looks behind the place are not given a meaning here. The
expressions without them whose repetitions consume something are called tame, and the laws
are about these.
-/

namespace Highlighter.Regex

open Text (Cursor)

variable {text : List Char}

/-- The place behind one character of a set. -/
def CharClass.ends (set : CharClass) (place : Cursor text) : List (Cursor text) :=
  match place.next? with
  | some (character, further) => if set.contains character then [further] else []
  | none => []

namespace Expr

/-- Where the matches of the expression that begin at the place end, the preferred one
first. -/
def ends : Expr → Cursor text → List (Cursor text)
  | empty, place => [place]
  | one set, place => (set.getD .nothing).ends place
  | assertion condition, place => if condition.holds place then [place] else []
  | sequence first second, place => (first.ends place).flatMap second.ends
  | either first second, place => first.ends place ++ second.ends place
  | repetition body least most greedy, place =>
    repeated (fun cursor => cursor) body.ends least most greedy place
  | capture _ body, place | group body, place => body.ends place
  | look .ahead negated body, place => if (body.ends place).isEmpty = negated then [place] else []
  | look .behind _ _, _ | atomic _, _ | reference _, _ => []

/-- The expression has a meaning here: it has no references, atomic groups and looks behind
the place, and what it repeats consumes. -/
def tame : Expr → Bool
  | empty | one _ | assertion _ => true
  | sequence first second | either first second => first.tame && second.tame
  | repetition body least most _ =>
    body.tame && 0 < body.minimalLength && most.all (least ≤ ·)
  | capture _ body | group body | look .ahead _ body => body.tame
  | look .behind _ _ | atomic _ | reference _ => false

end Expr

/-- A character of a set takes the place one character further. -/
theorem CharClass.mem_ends {set : CharClass} {place last : Cursor text} :
    last ∈ set.ends place ↔
      ∃ character, place.next? = some (character, last) ∧ set.contains character := by
  unfold ends
  cases stepped : place.next? with
  | none => simp
  | some step =>
    obtain ⟨character, further⟩ := step
    simp only [Option.some.injEq, Prod.mk.injEq]
    split
    · rename_i contained
      rw [List.mem_singleton]
      constructor
      · rintro rfl
        exact ⟨character, ⟨rfl, rfl⟩, contained⟩
      · rintro ⟨_, ⟨_, rfl⟩, _⟩
        rfl
    · rename_i missing
      constructor
      · intro listed
        cases listed
      · rintro ⟨_, ⟨rfl, _⟩, contained⟩
        exact absurd contained missing

/-- Rounds that each take at least so many characters take at least their sum. -/
theorem length_times_le {body : Cursor text → List (Cursor text)} {length : Nat}
    (taken : ∀ place reached, reached ∈ body place → place.index + length ≤ reached.index)
    {count : Nat} {place last : Cursor text} (reached : last ∈ times body count place) :
    place.index + length * count ≤ last.index := by
  have begun : place.index + length * 0 ≤ place.index := by omega
  have ended := times_invariant (fun round cursor => place.index + length * round ≤ cursor.index)
    (fun round before behind passed member => by
      have step := taken before behind member
      rw [Nat.mul_add_one]
      omega) begun reached
  simpa using ended

/-- A repetition takes at least its required rounds. -/
theorem length_repeated_le {body : Cursor text → List (Cursor text)} {length : Nat}
    (taken : ∀ place reached, reached ∈ body place → place.index + length ≤ reached.index)
    {least : Nat} {most : Option Nat} (bounds : most.all (least ≤ ·)) {greedy : Bool}
    {place last : Cursor text}
    (reached : last ∈ repeated (fun cursor => cursor) body least most greedy place) :
    place.index + length * least ≤ last.index := by
  have onward (bound : Nat) (before behind : Cursor text) (passed : bound ≤ before.index)
      (member : behind ∈ body before) : bound ≤ behind.index := by
    have step := taken before behind member
    omega
  cases most with
  | none =>
    obtain ⟨middle, required, others⟩ := List.mem_flatMap.mp reached
    have begun := length_times_le taken required
    exact star_invariant (fun cursor => place.index + length * least ≤ cursor.index)
      (onward _) begun others
  | some most =>
    have smaller : min least most = least := Nat.min_eq_left (by simpa using bounds)
    obtain ⟨middle, required, others⟩ := List.mem_flatMap.mp reached
    rw [smaller] at required
    have begun := length_times_le taken required
    exact up_to_invariant (fun cursor => place.index + length * least ≤ cursor.index)
      (onward _) begun others

namespace Expr

/-- A match is at least as long as the shortest match.

Proof: induction over the expression. Each required round of a repetition takes the
shortest match of the body. -/
theorem minimal_length_le {expression : Expr} (tame : expression.tame) {place last : Cursor text}
    (reached : last ∈ expression.ends place) :
    place.index + expression.minimalLength ≤ last.index := by
  induction expression generalizing place last with
  | empty =>
    obtain rfl : last = place := by simpa [ends] using reached
    exact Nat.le_refl _
  | one set =>
    obtain ⟨character, stepped, _⟩ := CharClass.mem_ends.mp reached
    exact Nat.le_of_eq (Cursor.index_of_next? stepped).symm
  | assertion condition =>
    obtain ⟨_, rfl⟩ : condition.holds place ∧ last = place := by simpa [ends] using reached
    exact Nat.le_refl _
  | sequence first second former latter =>
    obtain ⟨tameFirst, tameSecond⟩ := Bool.and_eq_true_iff.mp tame
    obtain ⟨middle, inFirst, inSecond⟩ := List.mem_flatMap.mp reached
    have begun := former tameFirst inFirst
    have ended := latter tameSecond inSecond
    simp only [minimalLength]
    omega
  | either first second former latter =>
    obtain ⟨tameFirst, tameSecond⟩ := Bool.and_eq_true_iff.mp tame
    simp only [minimalLength]
    rcases List.mem_append.mp reached with inFirst | inSecond
    · have taken := former tameFirst inFirst
      omega
    · have taken := latter tameSecond inSecond
      omega
  | repetition body least most greedy induction =>
    simp only [Expr.tame, Bool.and_eq_true, decide_eq_true_eq] at tame
    obtain ⟨⟨tameBody, _⟩, bounds⟩ := tame
    exact length_repeated_le (fun _ _ member => induction tameBody member) bounds reached
  | capture group body induction => exact induction tame reached
  | group body induction => exact induction tame reached
  | look direction negated body induction =>
    cases direction with
    | ahead =>
      obtain ⟨_, rfl⟩ : (body.ends place).isEmpty = negated ∧ last = place := by
        simpa [ends] using reached
      exact Nat.le_refl _
    | behind => simp [Expr.tame] at tame
  | atomic body induction => simp [Expr.tame] at tame
  | reference group => simp [Expr.tame] at tame

/-- Where no match consumes anything, the shortest match is empty. -/
theorem minimal_length_of_consumes_nothing {expression : Expr} (tame : expression.tame)
    (nothing : expression.consumesNothing) : expression.minimalLength = 0 := by
  induction expression with
  | empty | assertion condition | look direction negated body => rfl
  | one set | reference group => simp [consumesNothing] at nothing
  | sequence first second former latter =>
    obtain ⟨tameFirst, tameSecond⟩ := Bool.and_eq_true_iff.mp tame
    obtain ⟨noneFirst, noneSecond⟩ := Bool.and_eq_true_iff.mp nothing
    rw [minimalLength, former tameFirst noneFirst, latter tameSecond noneSecond]
  | either first second former latter =>
    obtain ⟨tameFirst, tameSecond⟩ := Bool.and_eq_true_iff.mp tame
    obtain ⟨noneFirst, noneSecond⟩ := Bool.and_eq_true_iff.mp nothing
    rw [minimalLength, former tameFirst noneFirst, latter tameSecond noneSecond, Nat.min_self]
  | repetition body least most greedy induction =>
    simp only [Expr.tame, Bool.and_eq_true, decide_eq_true_eq] at tame
    simp only [consumesNothing, Bool.or_eq_true, decide_eq_true_eq] at nothing
    rcases nothing with none | rfl
    · rw [minimalLength, induction tame.1.1 none, Nat.zero_mul]
    · obtain rfl : least = 0 := by simpa using tame.2
      rfl
  | capture group body induction => exact induction tame nothing
  | group body induction => exact induction tame nothing
  | atomic body => simp [Expr.tame] at tame

/-- A match does not end before its begin. -/
theorem index_le_of_mem_ends {expression : Expr} (tame : expression.tame)
    {place last : Cursor text} (reached : last ∈ expression.ends place) :
    place.index ≤ last.index := by
  have taken := minimal_length_le tame reached
  omega

/-- All matches of an expression of fixed length are as long as the shortest one. -/
theorem fixed_length_eq {expression : Expr} (tame : expression.tame)
    (fixed : expression.fixedLength) {place last : Cursor text}
    (reached : last ∈ expression.ends place) :
    last.index = place.index + expression.minimalLength := by
  induction expression generalizing place last with
  | empty =>
    obtain rfl : last = place := by simpa [ends] using reached
    rfl
  | one set =>
    obtain ⟨character, stepped, _⟩ := CharClass.mem_ends.mp reached
    exact Cursor.index_of_next? stepped
  | assertion condition =>
    obtain ⟨_, rfl⟩ : condition.holds place ∧ last = place := by simpa [ends] using reached
    rfl
  | sequence first second former latter =>
    obtain ⟨tameFirst, tameSecond⟩ := Bool.and_eq_true_iff.mp tame
    obtain ⟨fixedFirst, fixedSecond⟩ := Bool.and_eq_true_iff.mp fixed
    obtain ⟨middle, inFirst, inSecond⟩ := List.mem_flatMap.mp reached
    rw [latter tameSecond fixedSecond inSecond, former tameFirst fixedFirst inFirst,
      minimalLength, Nat.add_assoc]
  | either first second former latter =>
    obtain ⟨tameFirst, tameSecond⟩ := Bool.and_eq_true_iff.mp tame
    simp only [fixedLength, Bool.and_eq_true, decide_eq_true_eq] at fixed
    obtain ⟨⟨fixedFirst, fixedSecond⟩, same⟩ := fixed
    rcases List.mem_append.mp reached with inFirst | inSecond
    · rw [former tameFirst fixedFirst inFirst, minimalLength, same, Nat.min_self]
    · rw [latter tameSecond fixedSecond inSecond, minimalLength, same, Nat.min_self]
  | repetition body least most greedy induction =>
    simp only [Expr.tame, Bool.and_eq_true, decide_eq_true_eq] at tame
    obtain ⟨⟨tameBody, _⟩, _⟩ := tame
    simp only [fixedLength, Bool.and_eq_true, decide_eq_true_eq] at fixed
    obtain ⟨fixedBody, rfl⟩ := fixed
    obtain ⟨middle, required, others⟩ := List.mem_flatMap.mp reached
    obtain rfl : last = middle := by simpa [upTo] using others
    rw [Nat.min_self] at required
    have ended := times_invariant
      (fun round cursor => cursor.index = place.index + body.minimalLength * round)
      (fun round before behind passed member => by
        rw [induction tameBody fixedBody member, passed, Nat.mul_add_one, Nat.add_assoc])
      (by simp) required
    simpa [minimalLength] using ended
  | capture group body induction => exact induction tame fixed reached
  | group body induction => exact induction tame fixed reached
  | look direction negated body induction =>
    have taken := reached
    cases direction with
    | ahead =>
      obtain ⟨_, rfl⟩ : (body.ends place).isEmpty = negated ∧ last = place := by
        simpa [ends] using reached
      rfl
    | behind => simp [Expr.tame] at tame
  | atomic body induction => simp [Expr.tame] at tame
  | reference group => simp [Expr.tame] at tame

/-- The matches of an expression of fixed length all end at one place. -/
theorem ends_alike_head {expression : Expr} (tame : expression.tame)
    (fixed : expression.fixedLength) (place : Cursor text) :
    Alike (expression.ends place) (expression.ends place).head?.toList := by
  cases listed : expression.ends place with
  | nil => exact Alike.refl _
  | cons first others =>
    refine Alike.of_same first fun other member => Cursor.eq_of_index ?_
    have same := fixed_length_eq tame fixed (listed ▸ member)
    have ahead : first ∈ expression.ends place := by simp [listed]
    rw [same, fixed_length_eq tame fixed ahead]

end Expr

end Highlighter.Regex

import Highlighter.Proofs.Regex.Repeats
import Highlighter.Proofs.Text.Bytes

/-!
# Scanners

A scanner is told by one function: where the match ends that begins at a position, if one
does. It goes through a text from left to right, and on from the end of each match. What
such a function has to agree with is the preferred end of a pattern at each single place;
then the scan with the pattern reports what the scanner finds, match by match.

Positions count characters. What a scan reports are bytes, so the positions of the scanner
are turned into bytes at the end.
-/

namespace Highlighter.Regex

open Text (Cursor byteLength)

/-- The matches from a position on, from left to right, in a text of the given length. The
function says where the match that begins at a position ends. A match without characters
does not count. -/
def leftToRight (length : Nat) (ending? : Nat → Option Nat) (position : Nat) : List (Nat × Nat) :=
  if position < length then
    match ending? position with
    | none => leftToRight length ending? (position + 1)
    | some last =>
      if position < last then (position, last) :: leftToRight length ending? last
      else leftToRight length ending? (position + 1)
  else []
termination_by length - position

/-- The matches that begin anywhere in a text of the given length, in the order of their begins. -/
def everywhere (length : Nat) (ending? : Nat → Option Nat) : List (Nat × Nat) :=
  (List.range length).filterMap fun position => (ending? position).map fun last => (position, last)

/-- The byte positions of begin and end, for positions that count characters. -/
def byteSpans (text : List Char) (spans : List (Nat × Nat)) : List (Nat × Nat) :=
  spans.map fun span => (byteLength (text.take span.1), byteLength (text.take span.2))

/-- The numbers of the places between which the matches lie. -/
def indices {text : List Char} (hits : List (Cursor text × Cursor text)) : List (Nat × Nat) :=
  hits.map fun hit => (hit.1.index, hit.2.index)

section Scanners

variable {length position : Nat} {ending? : Nat → Option Nat}

/-- Positions at which no match begins are passed over. -/
theorem left_to_right_skip {next : Nat} (ordered : position ≤ next) (inside : next ≤ length)
    (missing : ∀ between, position ≤ between → between < next → ending? between = none) :
    leftToRight length ending? position = leftToRight length ending? next := by
  induction next, ordered using Nat.le_induction with
  | base => rfl
  | succ next behind induction =>
    rw [induction (by omega) fun between after before => missing between after (by omega)]
    conv => lhs; rw [leftToRight, if_pos (by omega), missing next behind (Nat.lt_succ_self next)]

/-- At the end of the text nothing is left to find. -/
theorem left_to_right_end : leftToRight length ending? length = [] := by
  rw [leftToRight, if_neg (Nat.lt_irrefl length)]

/-- A match that begins at the position is found, and the scanner goes on at its end. -/
theorem left_to_right_hit {last : Nat} (inside : position < length)
    (ends : ending? position = some last) (filled : position < last) :
    leftToRight length ending? position = (position, last) :: leftToRight length ending? last := by
  conv => lhs; rw [leftToRight, if_pos inside, ends]
  exact if_pos filled

/-- Where a match could begin there is a match that is found, or one that begins there. -/
theorem left_to_right_covers {other last : Nat} (behind : position ≤ other) (inside : other < length)
    (ends : ending? other = some last) (filled : other < last) :
    ∃ span ∈ leftToRight length ending? position, span.1 ≤ other ∧ other < span.2 := by
  fun_induction leftToRight length ending? position with
  | case1 position within missing induction =>
    refine induction ?_
    rcases Nat.eq_or_lt_of_le behind with rfl | further
    · rw [missing] at ends
      cases ends
    · exact further
  | case2 position within reached found moved induction =>
    by_cases covered : other < reached
    · exact ⟨_, List.mem_cons_self, behind, covered⟩
    · obtain ⟨span, listed, covers⟩ := induction (by omega)
      exact ⟨span, List.mem_cons_of_mem _ listed, covers⟩
  | case3 position within reached found stays induction =>
    refine induction ?_
    rcases Nat.eq_or_lt_of_le behind with rfl | further
    · obtain rfl := Option.some.inj (found.symm.trans ends)
      exact absurd filled stays
    · exact further
  | case4 position outside => omega

/-- If no match begins inside of another one, all that begin anywhere are found. -/
theorem left_to_right_eq_everywhere
    (apart : ∀ position last, ending? position = some last → position < last ∧ last ≤ length ∧
      ∀ between, position < between → between < last → ending? between = none) :
    leftToRight length ending? 0 = everywhere length ending? := by
  have onward (position : Nat) : leftToRight length ending? position =
      (List.range' position (length - position)).filterMap fun position =>
        (ending? position).map fun last => (position, last) := by
    fun_induction leftToRight length ending? position with
    | case1 position within missing induction =>
      have size : length - position = (length - (position + 1)) + 1 := by omega
      rw [size, List.range'_succ, List.filterMap_cons_none (by rw [missing]; rfl), induction]
    | case2 position within reached found moved induction =>
      obtain ⟨_, inside, none_between⟩ := apart position reached found
      have size : length - position = (length - (position + 1)) + 1 := by omega
      have parts : List.range' (position + 1) (length - (position + 1)) =
          List.range' (position + 1) (reached - (position + 1)) ++
            List.range' reached (length - reached) := by
        have joined := List.range'_append_1 (s := position + 1) (m := reached - (position + 1))
          (n := length - reached)
        rw [show position + 1 + (reached - (position + 1)) = reached by omega,
          show reached - (position + 1) + (length - reached) = length - (position + 1) by omega] at joined
        exact joined.symm
      have passed : (List.range' (position + 1) (reached - (position + 1))).filterMap (fun position =>
          (ending? position).map fun last => (position, last)) = [] := by
        refine List.filterMap_eq_nil_iff.mpr fun between listed => ?_
        rw [List.mem_range'_1] at listed
        rw [none_between between (by omega) (by omega)]
        rfl
      rw [size, List.range'_succ, List.filterMap_cons_some (by rw [found]; rfl), parts,
        List.filterMap_append, passed, induction]
      rfl
    | case3 position within reached found stays induction =>
      exact absurd (apart position reached found).1 stays
    | case4 position outside =>
      rw [Nat.sub_eq_zero_of_le (Nat.le_of_not_lt outside)]
      rfl
  rw [onward, everywhere, List.range_eq_range', Nat.sub_zero]

end Scanners

variable {text : List Char} {expression : Expr} {place : Cursor text}
  {hits : List (Cursor text × Cursor text)} {found : List Found} {rest : List Char}

/-- A function that says where the matches of the expression end finds what a scan with it
finds.

Proof: induction over the matches. Before each of them there is none that the scanner could
find earlier. -/
theorem Hits.left_to_right (tame : expression.tame) (consumes : 0 < expression.minimalLength)
    {ending? : Nat → Option Nat}
    (agrees : ∀ here : Cursor text,
      ending? here.index = (expression.ends here).head?.map Cursor.index)
    (scanned : Hits expression place hits found rest) :
    indices hits = leftToRight text.length ending? place.index := by
  have silent {here : Cursor text} (missing : (expression.ends here).head? = none) :
      ending? here.index = none := by
    rw [agrees, missing, Option.map_none]
  have there {position : Nat} (inside : position ≤ text.length) :
      ∃ here : Cursor text, here.index = position := ⟨.ofIndex text position inside, rfl⟩
  induction scanned with
  | @finished place missing =>
    have passed : leftToRight text.length ending? place.index =
        leftToRight text.length ending? text.length := by
      refine left_to_right_skip place.index_le_length (Nat.le_refl _) fun position behind before => ?_
      obtain ⟨here, rfl⟩ := there (Nat.le_of_lt before)
      exact silent (leftmost_none missing behind)
    rw [passed, left_to_right_end]
    rfl
  | @hit place first last hits found rest matched others induction =>
    obtain ⟨begins, preferred, earlier⟩ := leftmost_some matched
    have filled := Expr.first_consumes tame consumes matched
    have bounded := last.index_le_length
    have passed : leftToRight text.length ending? place.index =
        leftToRight text.length ending? first.index := by
      refine left_to_right_skip begins first.index_le_length fun position behind before => ?_
      obtain ⟨here, rfl⟩ := there (by omega : position ≤ text.length)
      exact silent (earlier here behind before)
    have ends : ending? first.index = some last.index := by
      rw [agrees, preferred, Option.map_some]
    rw [passed, left_to_right_hit (by omega) ends filled, ← induction]
    rfl

/-- The positions that a scan reports lie at the begin and the end of its matches.

Proof: induction over the matches, with the bytes up to the place and the positions that were
reported before it. -/
theorem Hits.spans (tame : expression.tame) (scanned : Hits expression place hits found rest)
    (reported : List (Nat × Nat)) :
    (found.foldl (fun state entry =>
        let first := state.1 + byteLength entry.gap
        let last := first + byteLength entry.matched
        (last, (first, last) :: state.2))
      (byteLength (text.take place.index), reported)).2.reverse =
        reported.reverse ++ byteSpans text (indices hits) := by
  induction scanned generalizing reported with
  | finished missing => simp [byteSpans, indices]
  | @hit place first last hits found rest matched others induction =>
    obtain ⟨begins, ends⟩ := Expr.first_ordered tame matched
    have reach {former latter : Cursor text} (ordered : former.index ≤ latter.index) :
        byteLength (text.take former.index) + byteLength (former.slice latter) =
          byteLength (text.take latter.index) := by
      rw [← former.before_take, ← latter.before_take, ← Text.byte_length_append,
        Cursor.before_append_slice ordered]
    simp only [List.foldl_cons, reach begins, reach ends, induction]
    simp [byteSpans, indices]

/-- A scan with an expression that consumes, if it is not given up, reports what the scanner
finds. -/
theorem spans_of_scanner {regex : Regex} (stands : Stands regex expression)
    (consumes : 0 < expression.minimalLength) {ending? : Nat → Option Nat}
    (agrees : ∀ here : Cursor text,
      ending? here.index = (expression.ends here).head?.map Cursor.index)
    (ended : (regex.scan text).problem = none) :
    (regex.scan text).spans = byteSpans text (leftToRight text.length ending? 0) := by
  obtain ⟨hits, scanned⟩ := scan_hits stands consumes text ended
  have found := scanned.left_to_right stands.tame consumes agrees
  change _ = byteSpans text (leftToRight text.length ending? (Cursor.start text).index)
  rw [← found]
  exact scanned.spans stands.tame []

end Highlighter.Regex

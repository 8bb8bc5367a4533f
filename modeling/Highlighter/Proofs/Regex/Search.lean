import Highlighter.Proofs.Regex.Compile
import Highlighter.Proofs.Regex.Scan

/-!
# A search finds what the expression matches

A compiled pattern stands for the tame expression that its text was read into. A search
with it finds the leftmost match of the expression, and there the preferred one; only the
limit on going back and the size of the stack can keep it from that, and `Regex.find_cases`
says when they cannot.

A scan with an expression that always consumes finds one such match after another, each
from the end of the one before. `Hits` says so without the matcher and without the
bookkeeping for empty matches. What a pass does to a text is shown from it.
-/

namespace Highlighter.Regex

open Text (Cursor)

variable {text : List Char}

/-- The leftmost match of the expression from a place on, and there the preferred one: its
begin and its end. -/
def Expr.first? (expression : Expr) (place : Cursor text) : Option (Cursor text × Cursor text) :=
  leftmost (fun here => (expression.ends here).head?) place

/-- The compiled pattern is the matcher of a tame expression. -/
structure Stands (regex : Regex) (expression : Expr) : Prop where
  tame : expression.tame
  made : Compile.matcher expression = .ok regex.matcher

/-- A tame expression has no references. -/
theorem Expr.references_of_tame {expression : Expr} (tame : expression.tame) :
    expression.references = [] := by
  induction expression with
  | empty | one set | assertion condition => rfl
  | sequence first second former latter | either first second former latter =>
    obtain ⟨tameFirst, tameSecond⟩ := Bool.and_eq_true_iff.mp tame
    rw [references, former tameFirst, latter tameSecond, List.append_nil]
  | repetition body least most greedy induction =>
    simp only [Expr.tame, Bool.and_eq_true] at tame
    exact induction tame.1.1
  | capture group body induction => exact induction tame
  | group body induction => exact induction tame
  | look direction negated body induction =>
    cases direction with
    | ahead => exact induction tame
    | behind => cases tame
  | atomic body induction => cases tame
  | reference group => cases tame

/-- A tame expression refers to no group, so no reference is wrong. -/
theorem Expr.checked_of_tame {expression : Expr} (tame : expression.tame) (begun : Nat) :
    ∃ count, expression.checkedGroups begun = some count := by
  induction expression generalizing begun with
  | empty | one set | assertion condition => exact ⟨begun, rfl⟩
  | sequence first second former latter | either first second former latter =>
    obtain ⟨tameFirst, tameSecond⟩ := Bool.and_eq_true_iff.mp tame
    obtain ⟨count, counted⟩ := former tameFirst begun
    rw [checkedGroups, counted]
    exact latter tameSecond count
  | repetition body least most greedy induction =>
    simp only [Expr.tame, Bool.and_eq_true] at tame
    exact induction tame.1.1 begun
  | capture group body induction => exact induction tame (begun + 1)
  | group body induction => exact induction tame begun
  | look direction negated body induction =>
    cases direction with
    | ahead => exact induction tame begun
    | behind => cases tame
  | atomic body induction => cases tame
  | reference group => cases tame

/-- A compiled pattern is an automaton with the ways of its expression, or a program that
means its expression. -/
theorem Stands.cases {regex : Regex} {expression : Expr} (stands : Stands regex expression) :
    (regex.matcher = .automaton (Automaton.ofExpr expression) ∧
      expression.needsChoices [] = false) ∨
    ∃ code, regex.matcher = .machine code ∧ Means true code expression := by
  have made := stands.made
  have references := Expr.references_of_tame stands.tame
  rw [Compile.matcher, references] at made
  split at made
  · cases made
  · simp only at made
    split at made
    · obtain ⟨code, compiled, made⟩ := Attempt.bind_eq_ok_iff.mp made
      exact .inr ⟨code, (Except.ok.inj made).symm, Compile.code_means stands.tame compiled⟩
    · rename_i plain
      obtain ⟨_, _, made⟩ := Attempt.bind_eq_ok_iff.mp made
      exact .inl ⟨(Except.ok.inj made).symm, by simpa using plain⟩

/-- A match of a tame expression lies between places in order. -/
theorem Expr.first_ordered {expression : Expr} (tame : expression.tame)
    {place first last : Cursor text} (found : expression.first? place = some (first, last)) :
    place.index ≤ first.index ∧ first.index ≤ last.index := by
  obtain ⟨behind, ended, _⟩ := leftmost_some found
  exact ⟨behind, Expr.index_le_of_mem_ends tame (List.mem_of_mem_head? ended)⟩

/-- A match between places in order is reported with them. -/
theorem Match.of_ends {place first last : Cursor text} (begins : place.index ≤ first.index)
    (ends : first.index ≤ last.index) :
    Match.ofEnds? place first last = some ⟨first, last, begins, ends⟩ := by
  rw [Match.ofEnds?, dif_pos begins, dif_pos ends]

/-- A program that means an expression tries what the expression matches. -/
theorem Means.preferred {code : Code} {expression : Expr} (means : Means true code expression)
    (place : Cursor text) :
    Machine.preferred code place =
      (expression.ends place).head?.map (Spot.mk (Machine.beginning place).marks) := by
  rw [Machine.preferred, (means.2 (Machine.beginning place)).head, marked, List.head?_map]
  rfl

/-- A search finds the leftmost match of the expression, and there the preferred one, or
nothing if there is none. Only a program may give it up, and only if the limit is less than
what the program can need, or if the stack has no room for it somewhere in the text. -/
theorem find_first {regex : Regex} {expression : Expr} (stands : Stands regex expression)
    (place : Cursor text) :
    (∃ found, regex.find? place = .ok found ∧
      found.map (fun hit => (hit.first, hit.last)) = expression.first? place) ∨
    ∃ code, regex.matcher = .machine code ∧ Means true code expression ∧
      (regex.find? place = .error (.exceeded .steps) ∧
          regex.limit < Machine.searchCost code place ∨
        regex.find? place = .error (.exceeded .stack) ∧ ¬ Machine.Roomy code text) := by
  have ordered {first last : Cursor text}
      (found : expression.first? place = some (first, last)) :
      (Match.ofEnds? place first last).map (fun hit => (hit.first, hit.last)) =
        some (first, last) := by
    obtain ⟨begins, ends⟩ := Expr.first_ordered stands.tame found
    rw [Match.of_ends begins ends, Option.map_some]
  rcases stands.cases with ⟨made, plain⟩ | ⟨code, made, means⟩
  · refine .inl ⟨_, by rw [find?, made], ?_⟩
    have same : Automaton.preferred (Automaton.ofExpr expression) =
        fun here : Cursor text => (expression.ends here).head? := by
      funext here
      rw [Automaton.preferred, Automaton.ends_of_expr stands.tame plain]
    rw [Automaton.find_leftmost, same]
    change ((expression.first? place).bind _).map _ = expression.first? place
    cases found : expression.first? place with
    | none => rfl
    | some ends => exact ordered found
  · have leads : leftmost (Machine.preferred code) place =
        (expression.first? place).map fun found =>
          (found.1, Spot.mk (Machine.beginning found.1).marks found.2) :=
      leftmost_map (fun here => Spot.mk (Machine.beginning here).marks) means.preferred place
    rcases Machine.search_leftmost regex.limit code place with
      ⟨overflown, full⟩ | ⟨exhausted, short⟩ | concluded
    · exact .inr ⟨code, made, means, .inr ⟨by rw [find?, made]; simp only [overflown], full⟩⟩
    · exact .inr ⟨code, made, means, .inl ⟨by rw [find?, made]; simp only [exhausted], short⟩⟩
    · rw [leads] at concluded
      cases found : expression.first? place with
      | none =>
        rw [found] at concluded
        refine .inl ⟨none, ?_, rfl⟩
        rw [find?, made]
        simp only [concluded, Option.map_none, Machine.concluded]
      | some ends =>
        rw [found] at concluded
        refine .inl ⟨_, ?_, ordered found⟩
        rw [find?, made]
        simp only [concluded, Option.map_some, Machine.concluded]
        rfl

/-- A scan from a place on finds matches between these places, each the leftmost behind the one
before. They are recorded so, and leave this rest. -/
inductive Hits (expression : Expr) :
    Cursor text → List (Cursor text × Cursor text) → List Found → List Char → Prop where
  | finished {place : Cursor text} (missing : expression.first? place = none) :
      Hits expression place [] [] place.after
  | hit {place first last : Cursor text} {hits : List (Cursor text × Cursor text)}
      {found : List Found} {rest : List Char}
      (matched : expression.first? place = some (first, last))
      (others : Hits expression last hits found rest) :
      Hits expression place ((first, last) :: hits)
        (⟨place.slice first, first.slice last⟩ :: found) rest

/-- A match of an expression that consumes has characters. -/
theorem Expr.first_consumes {expression : Expr} (tame : expression.tame)
    (consumes : 0 < expression.minimalLength) {place first last : Cursor text}
    (found : expression.first? place = some (first, last)) : first.index < last.index := by
  obtain ⟨_, ended, _⟩ := leftmost_some found
  have taken := Expr.minimal_length_le tame (List.mem_of_mem_head? ended)
  omega

/-- A scan that is not given up finds one match after another.

Proof: induction over the searches of the scan. No match is empty, so the record of the scan
always reaches to the place where it searches. -/
theorem Finds.hits {regex : Regex} {expression : Expr} (stands : Stands regex expression)
    (consumes : 0 < expression.minimalLength) {previous : Option Nat} {settled place : Cursor text}
    {found : List Found} {rest : List Char} {problem : Option Problem}
    (finds : Finds regex previous settled place found rest problem) (ended : problem = none)
    (same : settled = place) : ∃ hits, Hits expression place hits found rest := by
  have result {place : Cursor text} {found : Option (Match place)}
      (searched : regex.find? place = .ok found) :
      found.map (fun hit => (hit.first, hit.last)) = expression.first? place := by
    rcases find_first stands place with
      ⟨actual, again, first⟩ | ⟨_, _, _, ⟨failed, _⟩ | ⟨failed, _⟩⟩
    · obtain rfl : actual = found := Except.ok.inj (again.symm.trans searched)
      exact first
    · rw [searched] at failed
      cases failed
    · rw [searched] at failed
      cases failed
  induction finds with
  | givenUp searched => cases ended
  | finished searched =>
    subst same
    exact ⟨[], .finished (result searched).symm⟩
  | emptyAtEnd hit searched empty atEnd =>
    have filled := Expr.first_consumes stands.tame consumes (result searched).symm
    omega
  | emptyWithin hit searched empty stepped others =>
    have filled := Expr.first_consumes stands.tame consumes (result searched).symm
    omega
  | nonempty hit searched filled others induction =>
    subst same
    obtain ⟨hits, onward⟩ := induction ended rfl
    exact ⟨_, .hit (result searched).symm onward⟩

/-- A scan that is not given up finds one match after another, from the start of its text. -/
theorem scan_hits {regex : Regex} {expression : Expr} (stands : Stands regex expression)
    (consumes : 0 < expression.minimalLength) (text : List Char)
    (ended : (regex.scan text).problem = none) :
    ∃ hits, Hits expression (Cursor.start text) hits (regex.scan text).found
      (regex.scan text).rest :=
  (scan_finds regex text).hits stands consumes ended rfl

end Highlighter.Regex

import Highlighter.Proofs.Regex.Budget
import Highlighter.Proofs.Regex.Repeats

/-!
# What an expression makes of what follows it

Which of its ways an expression takes is settled by what follows: the ways are tried in order
until one of them leads on. So an expression is said by what it makes of the attempt behind it.
An attempt is a function of the position, which gives a result or fails; `Tries` says which
attempt an expression and what follows it are together. Attempts read the text alone, so nothing
is left of places and of lists of them, and there is one rule for each way to put expressions
together.

A repetition of a set tries all positions of a run. Mostly what follows fails inside of the run,
and then the end of the run is the only position that counts, see `many_at_end`.
-/

namespace Highlighter.Regex

open Text (Cursor)

/-! ### Runs of characters -/

/-- The end of the longest run of characters of a kind that begins at the position. -/
def runEnd (text : List Char) (kind : Char → Bool) (position : Nat) : Nat :=
  position + ((text.drop position).takeWhile kind).length

/-- A word goes on at the position. -/
def isWordAt (text : List Char) (position : Nat) : Bool := text[position]?.any Unicode.isWord

/-- A word comes before the position. -/
def isWordBefore (text : List Char) (position : Nat) : Bool :=
  0 < position && isWordAt text (position - 1)

variable {text : List Char} {kind : Char → Bool} {position : Nat}

/-- A character of a kind is of each kind that comprises it. -/
theorem any_of_kinds {first : Char → Bool} (kinds : ∀ character, first character → kind character)
    (held : text[position]?.any first) : text[position]?.any kind := by
  rw [Option.any_eq_true] at held ⊢
  exact held.imp fun character both => ⟨both.1, kinds character both.2⟩

theorem le_run_end : position ≤ runEnd text kind position := Nat.le_add_right _ _

/-- A run goes on behind a character of the kind. -/
theorem run_end_succ (held : text[position]?.any kind) :
    runEnd text kind position = runEnd text kind (position + 1) := by
  obtain ⟨character, present, kinds⟩ := (Option.any_eq_true _ _).mp held
  obtain ⟨inside, rfl⟩ := List.getElem?_eq_some_iff.mp present
  rw [runEnd, List.drop_eq_getElem_cons inside, List.takeWhile_cons_of_pos kinds,
    List.length_cons, runEnd]
  omega

/-- Without a character of the kind there is nothing to take. -/
theorem run_eq_nil (missing : text[position]?.any kind = false) :
    (text.drop position).takeWhile kind = [] := by
  rw [← List.head?_drop] at missing
  cases ahead : text.drop position with
  | nil => rfl
  | cons character others =>
    rw [ahead] at missing
    exact List.takeWhile_cons_of_neg (by simpa using missing)

/-- Without a character of the kind the run ends where it begins. -/
theorem run_end_self (missing : text[position]?.any kind = false) :
    runEnd text kind position = position := by
  rw [runEnd, run_eq_nil missing, List.length_nil, Nat.add_zero]

/-- A run is not empty where a character of the kind is. -/
theorem lt_run_end_iff : position < runEnd text kind position ↔ text[position]?.any kind := by
  cases held : text[position]?.any kind with
  | true =>
    rw [run_end_succ held]
    exact iff_of_true le_run_end rfl
  | false =>
    rw [run_end_self held]
    exact iff_of_false (Nat.lt_irrefl position) Bool.false_ne_true

/-- What lies in a run is of the kind. -/
theorem kind_of_run {between : Nat} (behind : position ≤ between)
    (before : between < runEnd text kind position) : text[between]?.any kind := by
  induction distance : between - position generalizing position with
  | zero =>
    obtain rfl : between = position := by omega
    exact lt_run_end_iff.mp before
  | succ distance induction =>
    have first := lt_run_end_iff.mp (Nat.lt_of_le_of_lt behind before)
    rw [run_end_succ first] at before
    exact induction (by omega) before (by omega)

/-- A sign of another kind does not lie in a run. -/
theorem ne_of_run {sign : Char} (other : kind sign = false) {between : Nat}
    (behind : position ≤ between) (before : between < runEnd text kind position) :
    text[between]? ≠ some sign := by
  intro there
  have held := kind_of_run behind before
  rw [there, Option.any_some, other] at held
  exact Bool.false_ne_true held

/-- A run of any characters goes on to the end of the text. -/
theorem run_end_any (inside : position ≤ text.length) :
    runEnd text (fun _ => true) position = text.length := by
  rw [runEnd, List.takeWhile_eq_self_iff.mpr fun _ _ => rfl, List.length_drop]
  omega

/-- Behind a run there is no character of the kind. -/
theorem run_stops : text[runEnd text kind position]?.any kind = false := by
  induction left : text.length - position using Nat.strong_induction_on generalizing position with
  | _ left induction =>
    cases held : text[position]?.any kind with
    | false => rw [run_end_self held, held]
    | true =>
      obtain ⟨character, present, _⟩ := (Option.any_eq_true _ _).mp held
      obtain ⟨inside, _⟩ := List.getElem?_eq_some_iff.mp present
      rw [run_end_succ held]
      exact induction _ (by omega) rfl

/-- In a run of parts of words a word goes on, -/
theorem word_at_of_run (words : ∀ character, kind character → Unicode.isWord character)
    {between : Nat} (behind : position ≤ between) (before : between < runEnd text kind position) :
    isWordAt text between :=
  any_of_kinds words (kind_of_run behind before)

/-- and a word comes before each of its positions but the first, and before its end. -/
theorem word_before_of_run (words : ∀ character, kind character → Unicode.isWord character)
    {between : Nat} (behind : position < between) (inside : between ≤ runEnd text kind position) :
    isWordBefore text between := by
  have earlier : isWordAt text (between - 1) :=
    word_at_of_run words (by omega : position ≤ between - 1) (by omega)
  rw [isWordBefore, earlier, Bool.and_true, decide_eq_true_eq]
  omega

/-- What comes before the next position goes on at this one. -/
theorem word_before_succ : isWordBefore text (position + 1) = isWordAt text position := by
  rw [isWordBefore, Nat.add_sub_cancel]
  exact Bool.and_eq_right_iff_imp.mpr fun _ => decide_eq_true (Nat.succ_pos position)

/-- What is before a place begins with a word if a word comes before its position. -/
theorem word_before_place (place : Cursor text) :
    Assertion.startsWithWord place.before = isWordBefore text place.index := by
  have bounded := place.index_le_length
  rw [Assertion.startsWithWord, ← List.getLast?_reverse, place.before_take, List.getLast?_take,
    isWordBefore, isWordAt]
  cases position : place.index with
  | zero => rfl
  | succ earlier =>
    have inside : earlier < text.length := by omega
    simp [List.getElem?_eq_getElem inside]

/-- What is ahead of a place begins with a word if a word goes on at its position. -/
theorem word_after_place (place : Cursor text) :
    Assertion.startsWithWord place.after = isWordAt text place.index := by
  rw [Assertion.startsWithWord, place.head_after, isWordAt]

/-! ### Attempts -/

/-- An attempt at a position: a result, or nothing where it fails. -/
abbrev Follow := Nat → Option Nat

namespace Follow

/-- Pass over a character of a kind. -/
def past (text : List Char) (kind : Char → Bool) (follow : Follow) : Follow := fun position =>
  if text[position]?.any kind then follow (position + 1) else none

/-- Pass over as many characters of a kind as there are, or over fewer if that leads on. -/
def pastMany (text : List Char) (kind : Char → Bool) (follow : Follow) : Follow := fun position =>
  (List.range' position (runEnd text kind position + 1 - position)).reverse.findSome? follow

/-- Pass over as few characters of a kind as lead on. -/
def pastFew (text : List Char) (kind : Char → Bool) (follow : Follow) : Follow := fun position =>
  (List.range' position (runEnd text kind position + 1 - position)).findSome? follow

/-- Go on where a word begins or ends. -/
def atBoundary (text : List Char) (follow : Follow) : Follow := fun position =>
  if isWordBefore text position != isWordAt text position then follow position else none

/-- Go on where a character of a kind is ahead. -/
def ahead (text : List Char) (kind : Char → Bool) (follow : Follow) : Follow := fun position =>
  if text[position]?.any kind then follow position else none

/-- Try a part first, and then to go on without it. -/
def perhaps (part : Follow → Follow) (follow : Follow) : Follow := fun position =>
  (part follow position).or (follow position)

/-- Pass over the letters of a word. -/
def pastWord (text letters : List Char) (follow : Follow) : Follow := fun position =>
  if letters.isPrefixOf (text.drop position) then follow (position + letters.length) else none

/-- Try some parts one after another. -/
def firstOf (parts : List (Follow → Follow)) (follow : Follow) : Follow := fun position =>
  parts.findSome? fun part => part follow position

theorem first_of_nil {follow : Follow} : firstOf [] follow position = none := rfl

theorem first_of_cons {part : Follow → Follow} {parts : List (Follow → Follow)} {follow : Follow} :
    firstOf (part :: parts) follow position =
      (part follow position).or (firstOf parts follow position) := by
  rw [firstOf, List.findSome?_cons]
  cases part follow position <;> rfl

end Follow

namespace Expr

/-- What the expression and an attempt at what follows it are together. -/
def Tries (text : List Char) (expression : Expr) (meaning : Follow → Follow) : Prop :=
  ∀ (follow : Follow) (place : Cursor text),
    (expression.ends place).findSome? (fun reached => follow reached.index) =
      meaning follow place.index

namespace Tries

variable {first second body : Expr} {others : List Expr} {former latter meaning : Follow → Follow}
  {set : CharClass}

/-- The preferred end is the position at which nothing more is asked for. -/
theorem head (tries : body.Tries text meaning) (place : Cursor text) :
    (body.ends place).head?.map Cursor.index = meaning some place.index := by
  rw [← tries some place]
  cases body.ends place <;> rfl

theorem sequence (begin : first.Tries text former) (rest : second.Tries text latter) :
    (sequence first second).Tries text (former ∘ latter) := by
  intro follow place
  change ((first.ends place).flatMap second.ends).findSome? _ = _
  rw [find_some_flat_map, Function.comp_apply, ← begin]
  congr 1
  funext reached
  exact rest follow reached

theorem sequences_nil : (sequences []).Tries text id := fun follow place => by
  change [place].findSome? _ = _
  rw [List.findSome?_singleton, id]

theorem sequences_cons (begin : first.Tries text former)
    (rest : (sequences others).Tries text latter) :
    (sequences (first :: others)).Tries text (former ∘ latter) := by
  cases others with
  | cons next further => exact begin.sequence rest
  | nil =>
    intro follow place
    rw [Function.comp_apply, ← begin]
    congr 1
    funext reached
    have alone := rest follow reached
    rwa [show (sequences []).ends reached = [reached] from rfl, List.findSome?_singleton] at alone

theorem either (one : first.Tries text former) (other : second.Tries text latter) :
    (either first second).Tries text
      fun follow position => (former follow position).or (latter follow position) := by
  intro follow place
  change (first.ends place ++ second.ends place).findSome? _ = _
  rw [List.findSome?_append, one, other]

theorem capture (group : Nat) (tries : body.Tries text meaning) :
    (capture group body).Tries text meaning := tries

theorem group (tries : body.Tries text meaning) : (group body).Tries text meaning := tries

theorem optional (tries : body.Tries text meaning) :
    (repetition body 0 (some 1) true).Tries text (Follow.perhaps meaning) := by
  intro follow place
  rw [optional_ends, List.findSome?_append, List.findSome?_singleton, tries]
  rfl

theorem boundary : (assertion .wordBoundary).Tries text (Follow.atBoundary text) := by
  intro follow place
  change (if _ then [place] else []).findSome? _ = _
  rw [Assertion.holds, word_before_place, word_after_place, Follow.atBoundary]
  split <;> simp

theorem one (set : CharClass) :
    (one (some set)).Tries text (Follow.past text set.contains) := by
  intro follow place
  change (set.ends place).findSome? _ = _
  rw [Follow.past]
  cases held : text[place.index]? with
  | none => rw [CharClass.ends_at_end set held]; rfl
  | some character =>
    obtain ⟨further, moved, taken⟩ := CharClass.ends_at held
    rw [taken, ← moved, Option.any_some]
    split <;> simp

/-- Where a run of a set can end, in the order of preference. -/
theorem run_ends (set : CharClass) (greedy : Bool) (place : Cursor text) :
    ((repetition (Expr.one (some set)) 0 none greedy).ends place).map Cursor.index =
      (let run := List.range' place.index (runEnd text set.contains place.index + 1 - place.index)
       if greedy then run.reverse else run) := by
  have alone : (repetition (Expr.one (some set)) 0 none greedy).ends place =
      star (fun cursor => cursor) greedy set.ends place := List.flatMap_singleton ..
  have consumes (place reached : Cursor text) (member : reached ∈ set.ends place) :
      place.index < reached.index := by
    obtain ⟨_, stepped, _⟩ := CharClass.mem_ends.mp member
    have moved := Cursor.index_of_next? stepped
    omega
  rw [alone]
  clear alone
  -- On what is left of the text: a round that is taken leaves one character less.
  induction left : text.length - place.index using Nat.strong_induction_on generalizing place with
  | _ left induction =>
    rw [star_of_consuming consumes]
    cases held : text[place.index]?.any set.contains with
    | false =>
      have stops : set.ends place = [] := by
        cases present : text[place.index]? with
        | none => exact CharClass.ends_at_end set present
        | some character =>
          obtain ⟨_, _, taken⟩ := CharClass.ends_at present
          rw [present] at held
          rw [taken, if_neg (by simpa using held)]
      rw [stops, run_end_self held, List.flatMap_nil]
      cases greedy <;> simp [prefer]
    | true =>
      obtain ⟨character, present, contained⟩ := (Option.any_eq_true _ _).mp held
      obtain ⟨inside, _⟩ := List.getElem?_eq_some_iff.mp present
      obtain ⟨further, moved, taken⟩ := CharClass.ends_at present
      have later := induction _ (by omega) further rfl
      have longer := run_end_succ held
      have passed : place.index + 1 ≤ runEnd text set.contains (place.index + 1) := le_run_end
      have size : runEnd text set.contains place.index + 1 - place.index =
          (runEnd text set.contains further.index + 1 - further.index) + 1 := by
        rw [moved, longer]
        omega
      rw [taken, if_pos contained, List.flatMap_singleton, size, List.range'_succ, ← moved]
      cases greedy with
      | true => simpa [prefer] using later
      | false => simpa [prefer] using later

theorem many (set : CharClass) :
    (repetition (Expr.one (some set)) 0 none true).Tries text
      (Follow.pastMany text set.contains) := by
  intro follow place
  have ends := run_ends set true place
  rw [Follow.pastMany, ← show _ = (List.range' _ _).reverse from ends, List.findSome?_map]
  rfl

theorem few (set : CharClass) :
    (repetition (Expr.one (some set)) 0 none false).Tries text
      (Follow.pastFew text set.contains) := by
  intro follow place
  have ends := run_ends set false place
  rw [Follow.pastFew, ← show _ = List.range' _ _ from ends, List.findSome?_map]
  rfl

/-- At least one character is one and then as many as there are. -/
theorem at_least_one (set : CharClass) :
    (repetition (Expr.one (some set)) 1 none true).Tries text
      (Follow.past text set.contains ∘ Follow.pastMany text set.contains) := by
  intro follow place
  have parts : (repetition (Expr.one (some set)) 1 none true).ends place =
      (Expr.sequence (.one (some set)) (repetition (.one (some set)) 0 none true)).ends place :=
    List.flatMap_assoc
  rw [parts]
  exact (one set).sequence (many set) follow place

/-- A look ahead goes on where it is, if the character that it looks at is there. -/
theorem look_ahead (set : CharClass) :
    (look .ahead false (Expr.one (some set))).Tries text (Follow.ahead text set.contains) := by
  intro follow place
  change (if (set.ends place).isEmpty = false then [place] else []).findSome? _ = _
  rw [Follow.ahead]
  cases held : text[place.index]? with
  | none => rw [CharClass.ends_at_end set held]; rfl
  | some character =>
    obtain ⟨further, _, taken⟩ := CharClass.ends_at held
    rw [taken, Option.any_some]
    split <;> simp_all

/-- A letter is passed over. -/
theorem letter (letter : Char) :
    (literal letter false).Tries text (Follow.past text fun character => character = letter) := by
  rw [← funext (CharClass.contains_single_eq letter)]
  exact one (.single letter)

/-- The letters of a word are passed over one by one. -/
theorem word (letters : List Char) :
    (sequences (letters.map fun letter => literal letter false)).Tries text
      (Follow.pastWord text letters) := by
  induction letters with
  | nil => exact sequences_nil
  | cons first others induction =>
    have both : Follow.pastWord text (first :: others) =
        Follow.past text (fun character => character = first) ∘ Follow.pastWord text others := by
      funext follow position
      rw [Follow.pastWord, Function.comp_apply, Follow.past]
      cases present : text[position]? with
      | none =>
        have ended := List.drop_eq_nil_of_le (List.getElem?_eq_none_iff.mp present)
        simp [ended]
      | some character =>
        obtain ⟨inside, rfl⟩ := List.getElem?_eq_some_iff.mp present
        rw [List.drop_eq_getElem_cons inside, Option.any_some, Follow.pastWord]
        by_cases same : text[position] = first
        · simp [List.isPrefixOf, same, Nat.add_assoc, Nat.add_comm 1]
        · have apart : (first == text[position]) = false := by simpa using Ne.symm same
          simp [List.isPrefixOf, same, apart]
    rw [both, List.map_cons]
    exact (letter first).sequences_cons induction

/-- Alternatives are tried one after another. -/
theorem alternatives {options : List Expr} {meanings : List (Follow → Follow)}
    (filled : options ≠ []) (each : List.Forall₂ (Tries text) options meanings) :
    (alternatives options).Tries text (Follow.firstOf meanings) := by
  induction each with
  | nil => exact absurd rfl filled
  | @cons option meaning others meanings tries each induction =>
    cases each with
    | nil =>
      have alone : Follow.firstOf [meaning] = meaning := by
        funext follow position
        rw [Follow.firstOf, List.findSome?_singleton]
      rwa [alone]
    | @cons other next _ _ begins further =>
      intro follow place
      rw [Follow.first_of_cons]
      exact tries.either (induction (List.cons_ne_nil _ _)) follow place

end Tries

end Expr

namespace Follow

variable {follow : Follow}

/-- A single character is passed over where it is. -/
theorem past_letter {letter : Char} : past text (· = letter) follow position =
    if text[position]? = some letter then follow (position + 1) else none := by
  rw [past]
  cases text[position]? <;> simp

/-- A single character is ahead where it is. -/
theorem ahead_letter {letter : Char} : ahead text (· = letter) follow position =
    if text[position]? = some letter then follow position else none := by
  rw [ahead]
  cases text[position]? <;> simp

/-- Where a word comes before, it has to end. -/
theorem at_boundary_behind (word : isWordBefore text position) :
    atBoundary text follow position = if isWordAt text position then none else follow position := by
  rw [atBoundary, word]
  cases isWordAt text position <;> rfl

/-- Where no word comes before, one has to begin. -/
theorem at_boundary_apart (apart : isWordBefore text position = false) :
    atBoundary text follow position = if isWordAt text position then follow position else none := by
  rw [atBoundary, apart]
  cases isWordAt text position <;> rfl

/-- Where a word goes on, none may come before. -/
theorem at_boundary_ahead (word : isWordAt text position) :
    atBoundary text follow position =
      if isWordBefore text position then none else follow position := by
  rw [atBoundary, word]
  cases isWordBefore text position <;> rfl

/-- Nor may one come before what begins with a word. -/
theorem at_boundary_of_begins (begins : isWordAt text position = false → follow position = none) :
    atBoundary text follow position =
      if isWordBefore text position then none else follow position := by
  cases after : isWordAt text position with
  | true => exact at_boundary_ahead after
  | false => rw [atBoundary, begins after, ite_self, ite_self]

/-- Inside of a run of parts of words no word begins or ends. -/
theorem at_boundary_of_run (words : ∀ character, kind character → Unicode.isWord character)
    {between : Nat} (behind : position < between) (before : between < runEnd text kind position) :
    atBoundary text follow between = none := by
  rw [at_boundary_behind (word_before_of_run words behind (Nat.le_of_lt before)),
    if_pos (word_at_of_run words (Nat.le_of_lt behind) before)]

/-- The end of the run is tried first, and then the positions inside of the run. -/
theorem many_eq : pastMany text kind follow position =
    (follow (runEnd text kind position)).or
      ((List.range' position (runEnd text kind position - position)).reverse.findSome? follow) := by
  have within : position ≤ runEnd text kind position := le_run_end
  have size : runEnd text kind position + 1 - position =
      (runEnd text kind position - position) + 1 := by omega
  have last : position + (runEnd text kind position - position) = runEnd text kind position := by
    omega
  rw [pastMany, size, List.range'_1_concat, List.reverse_concat, List.findSome?_cons, last]
  cases follow (runEnd text kind position) <;> rfl

/-- If the attempt fails inside of a run, only the end of the run counts. -/
theorem many_at_end (fails : ∀ between, position ≤ between → between < runEnd text kind position →
    follow between = none) :
    pastMany text kind follow position = follow (runEnd text kind position) := by
  have earlier : (List.range' position (runEnd text kind position - position)).reverse.findSome?
      follow = none := by
    refine List.findSome?_eq_none_iff.mpr fun between listed => ?_
    rw [List.mem_reverse, List.mem_range'_1] at listed
    exact fails between listed.1 (by omega)
  rw [many_eq, earlier, Option.or_none]

/-- If nothing more is asked for, all of the run is passed over. -/
theorem many_some : pastMany text kind some position = some (runEnd text kind position) := by
  rw [many_eq, Option.some_or]

/-- One character of a kind within the kind and then as many as there are reach the end of the run,
if the attempt fails inside of it. -/
theorem first_at_end {first : Char → Bool} (kinds : ∀ character, first character → kind character)
    (fails : ∀ between, position < between → between < runEnd text kind position →
      follow between = none) :
    past text first (pastMany text kind follow) position =
      if text[position]?.any first then follow (runEnd text kind position) else none := by
  rw [past]
  by_cases begins : text[position]?.any first
  · rw [run_end_succ (any_of_kinds kinds begins)] at fails ⊢
    rw [if_pos begins, if_pos begins, many_at_end fun between behind before =>
      fails between behind before]
  · rw [if_neg begins, if_neg begins]

/-- One character and then as many as there are reach the end of a run that is not empty, if the
attempt fails inside of it. -/
theorem some_at_end (fails : ∀ between, position < between → between < runEnd text kind position →
    follow between = none) :
    past text kind (pastMany text kind follow) position =
      if position < runEnd text kind position then follow (runEnd text kind position)
      else none := by
  simp only [first_at_end (fun _ held => held) fails, lt_run_end_iff]

/-- The letters of a word that ends behind them are a whole word. -/
theorem past_word_at_boundary {letters : List Char} (filled : letters ≠ [])
    (words : ∀ letter ∈ letters, Unicode.isWord letter) :
    pastWord text letters (atBoundary text follow) position =
      if (text.drop position).takeWhile Unicode.isWord = letters then
        follow (runEnd text Unicode.isWord position)
      else none := by
  rw [pastWord]
  by_cases begins : letters <+: text.drop position
  · obtain ⟨rest, split⟩ := begins
    have run : (text.drop position).takeWhile Unicode.isWord =
        letters ++ rest.takeWhile Unicode.isWord := by
      rw [← split, List.takeWhile_append_of_pos words]
    have before : isWordBefore text (position + letters.length) :=
      word_before_of_run (fun _ word => word)
        (Nat.lt_add_of_pos_right (List.length_pos_iff.mpr filled))
        (by rw [runEnd, run, List.length_append]; omega)
    have after : isWordAt text (position + letters.length) = rest.head?.any Unicode.isWord := by
      rw [isWordAt, ← List.getElem?_drop, ← split, List.getElem?_append_right (Nat.le_refl _),
        Nat.sub_self, List.head?_eq_getElem?]
    rw [if_pos (List.isPrefixOf_iff_prefix.mpr ⟨rest, split⟩), at_boundary_behind before, after,
      runEnd, run]
    cases rest with
    | nil => simp
    | cons next others => cases goesOn : Unicode.isWord next <;> simp [goesOn]
  · rw [if_neg (begins ∘ List.isPrefixOf_iff_prefix.mp), if_neg]
    exact fun same => begins (same ▸ List.takeWhile_prefix _)

section Leads

variable {leads : Nat → Bool} {result : Nat → Nat}

/-- The first position at which an attempt has a result is the first one that leads on. -/
theorem find_some_of_leads
    (follows : ∀ between, follow between = if leads between then some (result between) else none)
    (positions : List Nat) : positions.findSome? follow = (positions.find? leads).map result := by
  induction positions with
  | nil => rfl
  | cons first others induction =>
    rw [List.findSome?_cons, List.find?_cons, follows, induction]
    cases leads first <;> rfl

/-- As many characters as lead on are those before the last position of the run that does. -/
theorem many_of_leads
    (follows : ∀ between, follow between = if leads between then some (result between) else none)
    (ended : leads (runEnd text kind position) = false) :
    pastMany text kind follow position =
      ((List.range' position (runEnd text kind position - position)).filter leads).getLast?.map
        result := by
  rw [many_eq, follows, ended, if_neg Bool.false_ne_true, Option.none_or, List.getLast?_filter,
    find_some_of_leads follows]

/-- As few characters as lead on are those before the first position of the text that does. -/
theorem few_of_leads (inside : position ≤ text.length)
    (follows : ∀ between, follow between = if leads between then some (result between) else none)
    (ended : leads text.length = false) :
    pastFew text (fun _ => true) follow position =
      ((List.range' position (text.length - position)).find? leads).map result := by
  have size : text.length + 1 - position = (text.length - position) + 1 := by omega
  have last : position + (text.length - position) = text.length := by omega
  rw [pastFew, run_end_any inside, size, List.range'_1_concat, List.findSome?_append, last,
    List.findSome?_singleton, follows text.length, ended, if_neg Bool.false_ne_true, Option.or_none,
    find_some_of_leads follows]

end Leads

end Follow

end Highlighter.Regex

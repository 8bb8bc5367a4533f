import Highlighter.Proofs.Regex.Skipping

/-!
# Patterns in front of more

A text that is read by itself to a state is read to the same state in front of a sign that is
`Apart`, and inside more open parentheses, see `read_append`. So a pattern may be put together
from texts, each of which is read on its own.

There are two provisos. Where the text ends, blanks and comments may not be skipped: a comment
would go on, and a blank would be none. And no parenthesis may be one too many inside the others.

The reader is followed turn by turn: `Reading` lists what a turn can do that does not fail, and is
opened once, in `reading_of_read`. The walk in front of more takes the same turns.
-/

namespace Highlighter.Regex.Parser

open Text (byteLength)

variable {sign first : Char} {rest others : List Char} {taken position bound larger : Nat}
  {modes : Modes} {state next final : State}

/-- The letters of modes are read up to a colon or a closing parenthesis, whatever follows.

Proof: induction over the length of the text. -/
theorem mode_letters_append {start : Nat} {negative encloses : Bool} {written : List Char}
    {result : Modes} {count : Nat} (apart : Apart sign)
    (done : modeLetters start modes negative written rest taken = .ok (result, encloses, count))
    (more : List Char) (place : Nat) :
    count ≤ taken + rest.length ∧
      modeLetters place modes negative written (rest ++ sign :: more) taken =
        .ok (result, encloses, count) := by
  generalize counted : rest.length = length
  induction length using Nat.strongRecOn generalizing rest modes negative written taken with
  | ind length induction =>
  subst counted
  cases rest with
  | nil =>
    rw [modeLetters] at done
    cases done
  | cons letter others =>
    rw [List.length_cons] at induction ⊢
    have onward {modes : Modes} {negative : Bool}
        (done : modeLetters start modes negative (letter :: written) others (taken + 1) =
          .ok (result, encloses, count)) :
        count ≤ taken + (others.length + 1) ∧
          modeLetters place modes negative (letter :: written) (others ++ sign :: more)
            (taken + 1) = .ok (result, encloses, count) := by
      obtain ⟨bounded, again⟩ := induction _ (Nat.lt_succ_self _) done rfl
      exact ⟨by omega, again⟩
    rw [modeLetters] at done
    rw [List.cons_append, modeLetters]
    split at done
    · cases done
    · rename_i length skipped
      have short := blank_le skipped
      rw [List.length_cons] at short
      rcases blank_in_front apart skipped more (place + byteLength written) with same | ⟨_, whole⟩
      · rw [List.cons_append] at same
        rw [same]
        have within : length ≤ others.length := by omega
        obtain ⟨bounded, again⟩ := induction _ (by rw [List.length_drop]; omega) done rfl
        rw [List.length_drop] at bounded
        rw [List.take_succ_cons] at again
        refine ⟨by omega, ?_⟩
        simp only [List.drop_append_of_le_length within, List.take_succ_cons,
          List.take_append_of_le_length within]
        exact again
      · have ended : others.drop length = [] :=
          List.drop_eq_nil_of_le (Nat.le_of_succ_le_succ (Nat.le_of_eq whole.symm))
        rw [ended, modeLetters] at done
        cases done
    · rename_i visible
      rcases blank_in_front apart visible more (place + byteLength written) with same | ⟨_, whole⟩
      · rw [List.cons_append] at same
        rw [same]
        simp only at done ⊢
        split at done
        · rename_i closes
          rw [if_pos closes]
          split at done
          · cases done
          · rename_i well
            rw [if_neg well]
            cases done
            exact ⟨by omega, rfl⟩
        rename_i closes
        rw [if_neg closes]
        split at done
        · rename_i colon
          rw [if_pos colon]
          split at done
          · cases done
          · rename_i well
            rw [if_neg well]
            cases done
            exact ⟨by omega, rfl⟩
        rename_i colon
        rw [if_neg colon]
        split at done
        · rename_i dash
          rw [if_pos dash]
          split at done
          · cases done
          · rename_i positive
            rw [if_neg positive]
            exact onward done
        rename_i dash
        rw [if_neg dash]
        split at done
        · exact onward done
        · split at done <;> cases done
      · cases whole

/-- A name between delimiters is read up to the closing one, whatever follows. -/
theorem named_append {openings closings : List Char} {group : String → Opening} {skip : Nat}
    {fault : Problem} {begun : Opening} (apart : Apart sign)
    (done : (match Escape.delimited? openings closings rest with
      | some (name, length) => .ok (group name, skip + length)
      | none => .error fault : Except Problem (Opening × Nat)) = .ok (begun, taken))
    (more : List Char) :
    taken ≤ skip + rest.length ∧
      ∀ other, (match Escape.delimited? openings closings (rest ++ sign :: more) with
      | some (name, length) => .ok (group name, skip + length)
      | none => .error other : Except Problem (Opening × Nat)) = .ok (begun, taken) := by
  cases found : Escape.delimited? openings closings rest with
  | none => simp [found] at done
  | some pair =>
    obtain ⟨name, length⟩ := pair
    obtain ⟨short, again⟩ := Escape.delimited_append apart.not_name found more
    rw [found] at done
    cases done
    exact ⟨by omega, fun _ => by rw [again]⟩

/-- What begins something else than modes behind a parenthesis and a question mark. -/
def openers : List (List Char) := [['='], ['!'], ['<'], ['\''], ['>'], ['P', '<'], ['P', '=']]

/-- Behind a parenthesis and a question mark the letters of modes are read if nothing else begins
there. -/
theorem opening_modes {gap : Nat} {behind : List Char}
    (skipped : blanks modes position rest = .ok gap) (ahead : rest.drop gap = '?' :: behind)
    (bare : ∀ begun ∈ openers, ∀ tail, behind ≠ begun ++ tail) :
    opening modes position rest =
      modeLetters (position + byteLength (rest.take gap) + 1) modes false [] behind 0 >>=
        fun (newModes, encloses, taken) => .ok (.modes newModes encloses, gap + 1 + taken) := by
  rw [opening, skipped]
  simp only [openers, List.forall_mem_cons, List.cons_append, List.nil_append] at bare
  obtain ⟨noLook, noNegation, noName, noQuote, noAtom, noGroup, noReference, _⟩ := bare
  simp only [bind, Except.bind, ahead]
  split
  case h_1 same => exact absurd (List.cons.inj same).2 (noLook _)
  case h_2 same => exact absurd (List.cons.inj same).2 (noNegation _)
  case h_3 same | h_4 same | h_5 same => exact absurd (List.cons.inj same).2 (noName _)
  case h_6 same => exact absurd (List.cons.inj same).2 (noQuote _)
  case h_7 same => exact absurd (List.cons.inj same).2 (noGroup _)
  case h_8 same => exact absurd (List.cons.inj same).2 (noReference _)
  case h_9 same => exact absurd (List.cons.inj same).2 (noAtom _)
  case h_10 same =>
    cases same
    rfl
  case h_11 unmarked => exact absurd rfl (unmarked _)

/-- Without a question mark a parenthesis begins a capture group. -/
theorem opening_capture {gap : Nat} (skipped : blanks modes position rest = .ok gap)
    (unmarked : ∀ tail, rest.drop gap ≠ '?' :: tail) :
    opening modes position rest =
      .ok (.group (fun _ number => .capture number) true none, gap) := by
  rw [opening, skipped]
  simp only [bind, Except.bind]
  generalize rest.drop gap = text at unmarked
  split
  all_goals first | rfl | exact absurd rfl (unmarked _)

/-- What an opening parenthesis begins is the same in front of a sign that is apart, unless only
blanks and comments follow it.

Proof: by cases on the signs behind the parenthesis. Those that decide lie in the text, since the
sign that follows is none of them. -/
theorem opening_append {begun : Opening} (apart : Apart sign)
    (done : opening modes position rest = .ok (begun, taken)) (more : List Char) (place : Nat) :
    taken ≤ rest.length ∧ (opening modes place (rest ++ sign :: more) = .ok (begun, taken) ∨
      modes.skipBlanks ∧ taken = rest.length ∧
        begun = .group (fun _ number => .capture number) true none) := by
  obtain ⟨gap, skipped, chosen⟩ := Attempt.bind_eq_ok_iff.mp done
  have within := blanks_le skipped
  rcases blanks_in_front apart skipped more place with same | ⟨skips, rfl⟩
  · have length {text : List Char} (ahead : rest.drop gap = text) :
        rest.length = gap + text.length := by
      rw [← ahead, List.length_drop]
      omega
    have front : (rest ++ sign :: more).drop gap = rest.drop gap ++ sign :: more :=
      List.drop_append_of_le_length within
    have lacks {text begun : List Char} (away : ∀ tail, text ≠ begun ++ tail)
        (differs : ∀ letter ∈ begun, letter ≠ ' ' ∧ letter ≠ ')') (tail : List Char) :
        text ++ sign :: more ≠ begun ++ tail := by
      refine not_begin_append away ?_ tail
      rintro _ ⟨⟩ listed
      exact apart.ne (differs sign listed) rfl
    simp only [bind, Except.bind] at chosen
    split at chosen
    case h_1 ahead | h_2 ahead | h_3 ahead | h_4 ahead | h_9 ahead =>
      have counted := length ahead
      cases chosen
      simp only [List.length_cons] at counted
      refine ⟨by omega, .inl ?_⟩
      rw [opening, same]
      simp only [bind, Except.bind, front, ahead]
      rfl
    case h_5 behind looks negates ahead =>
      obtain ⟨short, again⟩ := named_append apart chosen more
      have counted := length ahead
      simp only [List.length_cons] at counted short
      refine ⟨by omega, .inl ?_⟩
      cases behind with
      | nil => simp [Escape.delimited?] at chosen
      | cons letter others =>
        have unequal : letter ≠ '=' := fun equals => looks others (by rw [equals])
        have unnegated : letter ≠ '!' := fun equals => negates others (by rw [equals])
        rw [opening, same]
        simp only [bind, Except.bind, front, ahead, List.cons_append, List.cons.injEq, unequal,
          unnegated, false_and, imp_self, implies_true]
        exact again _
    case h_6 ahead | h_7 ahead =>
      obtain ⟨short, again⟩ := named_append apart chosen more
      have counted := length ahead
      simp only [List.length_cons] at counted short
      refine ⟨by omega, .inl ?_⟩
      rw [opening, same]
      simp only [bind, Except.bind, front, ahead, List.cons_append]
      exact again _
    case h_8 ahead =>
      obtain ⟨short, again⟩ := @named_append _ _ _ _ _ .reference _ _ _ apart chosen more
      have counted := length ahead
      simp only [List.length_cons] at counted short
      refine ⟨by omega, .inl ?_⟩
      rw [opening, same]
      simp only [bind, Except.bind, front, ahead, List.cons_append]
      exact again _
    case h_10 behind noLook noNegation _ _ noName noQuote noGroup noReference noAtom ahead =>
      obtain ⟨⟨newModes, encloses, count⟩, letters, ended⟩ := Attempt.bind_eq_ok_iff.mp chosen
      obtain ⟨short, again⟩ := mode_letters_append apart letters more
        (place + byteLength ((rest ++ sign :: more).take gap) + 1)
      have counted := length ahead
      rw [List.length_cons] at counted
      have bare : ∀ begun ∈ openers, ∀ tail, behind ≠ begun ++ tail := by
        simp only [openers, List.forall_mem_cons]
        exact ⟨noLook, noNegation, noName, noQuote, noAtom, noGroup, noReference,
          List.forall_mem_nil _⟩
      have differs : ∀ begun ∈ openers, ∀ letter ∈ begun, letter ≠ ' ' ∧ letter ≠ ')' := by
        simp [openers]
      rw [opening_modes same (by rw [front, ahead]; rfl)
        fun begun listed => lacks (bare begun listed) (differs begun listed), again]
      simp only [Except.ok.injEq, Prod.mk.injEq] at ended
      obtain ⟨rfl, rfl⟩ := ended
      exact ⟨by omega, .inl rfl⟩
    case h_11 unmarked =>
      have bare := @lacks (rest.drop gap) ['?'] unmarked (by simp)
      rw [opening_capture same (by rw [front]; exact bare)]
      cases chosen
      exact ⟨within, .inl rfl⟩
  · rw [List.drop_length] at chosen
    cases chosen
    exact ⟨Nat.le_refl _, .inr ⟨skips, rfl, rfl⟩⟩

/-- The items of a bracket expression are collected up to its last bracket, whatever follows.

Proof: induction over the length of the text. -/
theorem bracket_items_append {bound larger depth start count : Nat} {caseInsensitive : Bool}
    {items result : List Bracket.Item} (apart : Apart sign)
    (done : bracketItems bound caseInsensitive depth items position start rest =
      .ok (result, count))
    (more : List Char) (place : Nat) :
    count ≤ start + rest.length ∧
      bracketItems larger caseInsensitive depth items place start (rest ++ sign :: more) =
        .ok (result, count) := by
  generalize counted : rest.length = length
  induction length using Nat.strongRecOn generalizing rest depth items position start place with
  | ind length induction =>
  subst counted
  cases rest with
  | nil =>
    rw [bracketItems] at done
    cases done
  | cons first further =>
    rw [List.length_cons] at induction ⊢
    rw [List.cons_append]
    have onward {depth start position place length : Nat} {items : List Bracket.Item}
        (done : bracketItems bound caseInsensitive depth items position start
          (further.drop length) = .ok (result, count)) :
        count ≤ start + (further.drop length).length ∧
          bracketItems larger caseInsensitive depth items place start
            (further.drop length ++ sign :: more) = .ok (result, count) :=
      induction _ (by rw [List.length_drop]; omega) done place rfl
    by_cases escaped : first = '\\'
    · subst escaped
      rw [bracketItems] at done ⊢
      cases described : Escape.read caseInsensitive true position further with
      | error problem => simp [described] at done
      | ok pair =>
        obtain ⟨meaning, length⟩ := pair
        obtain ⟨short, again⟩ := Escape.read_append apart described more place
        rw [described] at done
        rw [again]
        simp only [List.drop_append_of_le_length short] at done ⊢
        cases meaning with
        | character _ _ | set _ =>
          obtain ⟨bounded, again⟩ := onward done
          rw [List.length_drop] at bounded
          exact ⟨by omega, again⟩
        | number group =>
          simp only at done
          split at done <;> cases done
        | condition _ | name _ => cases done
    by_cases closes : first = ']'
    · subst closes
      cases depth with
      | zero =>
        rw [bracketItems] at done ⊢
        cases done
        exact ⟨by omega, rfl⟩
      | succ depth =>
        rw [bracketItems] at done ⊢
        obtain ⟨bounded, again⟩ := @onward _ _ _ _ 0 _ done
        exact ⟨by rw [List.drop_zero] at bounded; omega, again⟩
    · rw [bracketItems.eq_5 _ _ _ _ _ _ _ _ escaped closes] at done ⊢
      obtain ⟨bounded, again⟩ := @onward _ _ _ _ 0 _ done
      exact ⟨by rw [List.drop_zero] at bounded; omega, again⟩

/-- The state inside more open parentheses. -/
def State.within (state : State) (outer : List (Enclosure × Level)) : State :=
  { state with enclosing := state.enclosing ++ outer }

theorem escape_append (apart : Apart sign) (grows : bound ≤ larger)
    (done : escape bound state position rest = .ok (next, taken)) (more : List Char)
    (outer : List (Enclosure × Level)) (place : Nat) :
    taken ≤ rest.length ∧ escape larger (state.within outer) place (rest ++ sign :: more) =
      .ok (next.within outer, taken) := by
  obtain ⟨⟨meaning, length⟩, described, meant⟩ := Attempt.bind_eq_ok_iff.mp done
  obtain ⟨short, again⟩ := Escape.read_append apart described more place
  have names (name : String) : groupOf? (state.within outer) name = groupOf? state name := rfl
  rw [escape]
  simp only [State.within, again, bind, Except.bind]
  cases meaning with
  | character _ _ | set _ | condition _ =>
    cases meant
    exact ⟨short, rfl⟩
  | number group =>
    simp only at meant ⊢
    split at meant
    · rename_i known
      cases meant
      rw [if_pos (Nat.lt_of_lt_of_le known grows)]
      exact ⟨short, rfl⟩
    · cases meant
  | name name =>
    simp only [State.within] at names
    simp only [names] at meant ⊢
    split at meant
    · cases meant
      exact ⟨short, rfl⟩
    · cases meant

theorem bracket_append (apart : Apart sign)
    (done : bracket bound state position rest = .ok (next, taken)) (more : List Char)
    (outer : List (Enclosure × Level)) (place : Nat) :
    taken ≤ rest.length ∧ bracket larger (state.within outer) place (rest ++ sign :: more) =
      .ok (next.within outer, taken) := by
  have caretWithin := sign_le '^' (Nat.zero_le rest.length)
  have closingWithin := sign_le ']' caretWithin
  simp only [Nat.zero_add, List.drop_zero] at caretWithin closingWithin
  have negated : (rest ++ sign :: more).head? = some '^' ↔ rest.head? = some '^' :=
    apart.head_iff (by decide) more
  have closes := apart.drop_head_iff caretWithin ']' (by decide) more
  obtain ⟨⟨items, length⟩, listed, meant⟩ := Attempt.bind_eq_ok_iff.mp done
  simp only at listed meant
  obtain ⟨bounded, again⟩ : _ ∧ bracketItems larger _ _ _ _ _ _ = _ :=
    bracket_items_append apart listed more <| place + (if rest.head? = some '^' then 1 else 0) +
      if (rest.drop (if rest.head? = some '^' then 1 else 0)).head? = some ']' then 1 else 0
  rw [List.length_drop] at bounded
  cases meant
  refine ⟨by omega, ?_⟩
  simp only [bracket, negated, closes, List.take_append_of_le_length closingWithin,
    List.drop_append_of_le_length closingWithin, State.within, again, bind, Except.bind]
  rfl

theorem close_group_within (done : closeGroup state position = .ok next)
    (outer : List (Enclosure × Level)) (place : Nat) :
    closeGroup (state.within outer) place = .ok (next.within outer) := by
  obtain ⟨_, checked, closed⟩ := Attempt.bind_eq_ok_iff.mp done
  have same : checkReferences (state.within outer) = checkReferences state := rfl
  rw [closeGroup, same, checked]
  simp only [State.within, bind, Except.bind]
  cases opened : state.enclosing with
  | nil =>
    rw [opened] at closed
    cases closed
  | cons innermost others =>
    rw [opened] at closed
    cases closed
    rfl

/-- Too many open parentheses are refused. -/
theorem open_group_deep (deep : maximalDepth ≤ state.enclosing.length) :
    openGroup state position rest = .error (.malformed position .tooDeep) := by
  simp only [openGroup, deep, if_true]
  rfl

theorem open_group_append (apart : Apart sign)
    (done : openGroup state position rest = .ok (next, taken)) (more : List Char)
    {outer : List (Enclosure × Level)}
    (shallow : ¬ maximalDepth ≤ (state.within outer).enclosing.length) (place : Nat) :
    taken ≤ rest.length ∧
      (openGroup (state.within outer) place (rest ++ sign :: more) =
          .ok (next.within outer, taken) ∨
        next.modes.skipBlanks ∧ taken = rest.length ∧ next.enclosing ≠ []) := by
  have fewer : ¬ maximalDepth ≤ state.enclosing.length := by
    simp only [State.within, List.length_append] at shallow
    omega
  have names (name : String) : groupOf? (state.within outer) name = groupOf? state name := rfl
  have modes : (state.within outer).modes = state.modes := rfl
  simp only [openGroup, fewer, shallow, if_false, bind, Except.bind, pure, Except.pure, names,
    modes] at done ⊢
  cases begun : opening state.modes (position + 1) rest with
  | error problem => simp [begun] at done
  | ok pair =>
    obtain ⟨opened, length⟩ := pair
    rw [begun] at done
    obtain ⟨short, same | ⟨skips, rfl, rfl⟩⟩ := opening_append apart begun more (place + 1)
    · rw [same]
      cases opened with
      | reference name =>
        simp only at done ⊢
        split at done
        · cases done
          exact ⟨short, .inl rfl⟩
        · split at done <;> cases done
      | modes newModes encloses =>
        cases encloses with
        | false | true =>
          cases done
          exact ⟨short, .inl rfl⟩
      | group enclosure captures name =>
        cases done
        exact ⟨short, .inl rfl⟩
    · cases done
      exact ⟨short, .inr ⟨skips, rfl, List.cons_ne_nil _ _⟩⟩

/-- A part is read alike in front of more and inside more parentheses, unless they are too many or
blanks are skipped up to the end of the text, behind a parenthesis that is opened there. -/
theorem part_append (apart : Apart sign) (grows : bound ≤ larger)
    (done : part bound state position first rest = .ok (next, taken)) (more : List Char)
    (outer : List (Enclosure × Level)) (place : Nat) :
    taken ≤ rest.length ∧
      (part larger (state.within outer) place first (rest ++ sign :: more) =
          .ok (next.within outer, taken) ∨
        part larger (state.within outer) place first (rest ++ sign :: more) =
          .error (.malformed place .tooDeep) ∨
        next.modes.skipBlanks ∧ taken = rest.length ∧ next.enclosing ≠ []) := by
  unfold part at done ⊢
  split at done
  case h_1 | h_2 | h_3 | h_6 | h_12 =>
    cases done
    exact ⟨Nat.zero_le _, .inl rfl⟩
  case h_4 =>
    have alone : ¬ maximalDepth ≤ (state.within []).enclosing.length := by
      intro deep
      rw [State.within, List.append_nil] at deep
      rw [open_group_deep deep] at done
      cases done
    have bounded := (open_group_append apart done more alone place).1
    by_cases deep : maximalDepth ≤ (state.within outer).enclosing.length
    · exact ⟨bounded, .inr (.inl (open_group_deep deep))⟩
    · exact (open_group_append apart done more deep place).imp_right (Or.imp_right .inr)
  case h_5 =>
    obtain ⟨closed, closes, same⟩ := Attempt.map_eq_ok_iff.mp done
    cases same
    rw [close_group_within closes]
    exact ⟨Nat.zero_le _, .inl rfl⟩
  case h_7 => exact (escape_append apart grows done more outer place).imp_right .inl
  case h_8 => exact (bracket_append apart done more outer (place + 1)).imp_right .inl
  case h_9 | h_10 | h_11 => cases done

/-- The state behind a repetition of what waits. -/
def State.repeated (state : State) (expression : Expr) (bounds : Nat × Option Nat)
    (kind : Bool × Bool) : State :=
  let whole := Expr.repetition expression bounds.1 bounds.2 (kind.1 != state.modes.swapGreed)
  { state with
    level := state.level.add (if kind.2 then Expr.atomic whole else whole), waiting := none }

/-- A comment that is not closed is a problem. -/
theorem read_failed {problem : Problem}
    (failed : blank state.modes position (first :: others) = .error problem) :
    read bound state position (first :: others) = .error problem := by
  rw [read, failed]

/-- Blanks and comments are passed over. -/
theorem read_skipped {count : Nat}
    (skips : blank state.modes position (first :: others) = .ok (count + 1)) :
    read bound state position (first :: others) = read bound state
      (position + byteLength ((first :: others).take (count + 1))) (others.drop count) := by
  rw [read, skips]

/-- What waits is settled in front of what does not repeat it. -/
theorem read_unrepeated {expression : Expr}
    (visible : blank state.modes position (first :: others) = .ok 0)
    (waits : state.waiting = some expression)
    (unrepeated : operator? state.modes (first :: others) = none) :
    read bound state position (first :: others) =
      read bound (settle state) position (first :: others) := by
  rw [read, visible]
  simp only
  split
  · rw [unrepeated]
  · rename_i nothing
    rw [waits] at nothing
    cases nothing

/-- What waits is repeated by an operator and its manner. -/
theorem read_repeated {expression : Expr} {bounds : Nat × Option Nat}
    (visible : blank state.modes position (first :: others) = .ok 0)
    (waits : state.waiting = some expression)
    (repeats : operator? state.modes (first :: others) = some (bounds, taken)) :
    let behind := position + byteLength ((first :: others).take taken)
    read bound state position (first :: others) =
      if expression.repeatable then
        manner state.modes behind ((first :: others).drop taken) >>= fun (kind, further) =>
          read bound (state.repeated expression bounds kind)
            (position + byteLength ((first :: others).take (taken + further)))
            (others.drop (taken + further - 1))
      else .error (.malformed (behind - 1) .nothingToRepeat) := by
  rw [read, visible]
  simp only
  split
  · rename_i same
    rw [waits] at same
    cases same
    rw [repeats]
    cases expression.repeatable with
    | false => rfl
    | true =>
      simp only [Bool.not_true, Bool.false_eq_true, if_false, if_true]
      split
      · rename_i failed
        rw [failed]
        rfl
      · rename_i done
        rw [done]
        rfl
  · rename_i nothing
    rw [waits] at nothing
    cases nothing

/-- Where nothing waits a part is read. -/
theorem read_part (visible : blank state.modes position (first :: others) = .ok 0)
    (ready : state.waiting = none) :
    read bound state position (first :: others) =
      part bound state position first others >>= fun (next, taken) =>
        read bound next (position + byteLength ((first :: others).take (taken + 1)))
          (others.drop taken) := by
  rw [read, visible]
  simp only
  split
  · rename_i same
    rw [ready] at same
    cases same
  · split
    · rename_i failed
      rw [failed]
      rfl
    · rename_i done
      rw [done]
      rfl

/-- The turns that the reader takes to a final state, from a state in front of a text on. -/
inductive Reading (bound : Nat) (final : State) : State → Nat → List Char → Prop where
  | ended {state : State} {position : Nat} (settled : settle state = final)
      (checked : checkReferences final = .ok ()) (closed : final.enclosing = []) :
      Reading bound final state position []
  | skipped {state : State} {position count : Nat} {first : Char} {others : List Char}
      (skips : blank state.modes position (first :: others) = .ok (count + 1))
      (onward : Reading bound final state
        (position + byteLength ((first :: others).take (count + 1))) (others.drop count)) :
      Reading bound final state position (first :: others)
  | repeated {state : State} {position taken further : Nat} {first : Char} {others : List Char}
      {expression : Expr} {bounds : Nat × Option Nat} {kind : Bool × Bool}
      (visible : blank state.modes position (first :: others) = .ok 0)
      (waits : state.waiting = some expression)
      (repeats : operator? state.modes (first :: others) = some (bounds, taken))
      (repeatable : expression.repeatable)
      (manners : manner state.modes (position + byteLength ((first :: others).take taken))
        ((first :: others).drop taken) = .ok (kind, further))
      (onward : Reading bound final (state.repeated expression bounds kind)
        (position + byteLength ((first :: others).take (taken + further)))
        (others.drop (taken + further - 1))) :
      Reading bound final state position (first :: others)
  | unrepeated {state : State} {position : Nat} {first : Char} {others : List Char}
      {expression : Expr}
      (visible : blank state.modes position (first :: others) = .ok 0)
      (waits : state.waiting = some expression)
      (unrepeated : operator? state.modes (first :: others) = none)
      (onward : Reading bound final (settle state) position (first :: others)) :
      Reading bound final state position (first :: others)
  | part {state next : State} {position taken : Nat} {first : Char} {others : List Char}
      (visible : blank state.modes position (first :: others) = .ok 0)
      (ready : state.waiting = none)
      (reads : Parser.part bound state position first others = .ok (next, taken))
      (onward : Reading bound final next
        (position + byteLength ((first :: others).take (taken + 1))) (others.drop taken)) :
      Reading bound final state position (first :: others)

/-- What is read is read turn by turn. -/
theorem reading_of_read (done : read bound state position rest = .ok final) :
    Reading bound final state position rest := by
  induction state, position, rest using read.induct bound with
  | case1 state position =>
    rw [read] at done
    obtain ⟨_, checked, ended⟩ := Attempt.bind_eq_ok_iff.mp done
    split at ended
    · rename_i closed
      cases ended
      exact .ended rfl checked (List.isEmpty_iff.mp closed)
    · cases ended
  | case2 state position first others problem failed =>
    rw [read_failed failed] at done
    cases done
  | case3 state position first others count skips _ =>
    rename_i onward
    rw [read_skipped skips] at done
    exact .skipped skips (onward done)
  | case4 state position first others visible expression waits least most taken repeats rigid =>
    rw [read_repeated visible waits repeats, if_neg (by simpa using rigid)] at done
    cases done
  | case5 state position first others visible expression waits least most taken repeats _
      repeatable problem failed =>
    rw [read_repeated visible waits repeats, if_pos (by simpa using repeatable), failed] at done
    cases done
  | case6 state position first others visible expression waits least most taken repeats _
      repeatable greedy possessive further manners _ _ _ =>
    rename_i onward
    have repeatable : expression.repeatable := by simpa using repeatable
    rw [read_repeated visible waits repeats, if_pos repeatable, manners] at done
    exact .repeated visible waits repeats repeatable manners (onward done)
  | case7 state position first others visible expression waits unrepeated onward =>
    rw [read_unrepeated visible waits unrepeated] at done
    exact .unrepeated visible waits unrepeated (onward done)
  | case8 state position first others visible ready problem failed =>
    rw [read_part visible ready, failed] at done
    cases done
  | case9 state position first others visible ready next taken reads onward =>
    rw [read_part visible ready, reads] at done
    exact .part visible ready reads (onward done)

theorem settle_within (state : State) (outer : List (Enclosure × Level)) :
    settle (state.within outer) = (settle state).within outer := by
  unfold settle
  cases waits : state.waiting <;> simp [State.within, waits]

theorem modes_settle (state : State) : (settle state).modes = state.modes := by
  unfold settle
  split <;> rfl

theorem waiting_settle (state : State) : (settle state).waiting = none := by
  unfold settle
  split
  · assumption
  · rfl

/-- At its end a pattern leaves no parenthesis open and nothing that waits, and does not refer to
groups by name and by number, unless it has alternatives. -/
theorem Reading.closed_at_end (reading : Reading bound final state position rest) :
    final.enclosing = [] ∧ final.waiting = none ∧ checkReferences final = .ok () := by
  induction reading with
  | ended settled checked closed =>
    exact ⟨closed, settled ▸ waiting_settle _, checked⟩
  | skipped _ _ induction | repeated _ _ _ _ _ _ induction | unrepeated _ _ _ _ induction
  | part _ _ _ _ induction => exact induction

/-- Where nothing is left to read, the modes stay as they are. -/
theorem Reading.modes_eq (reading : Reading bound final state position rest) (ended : rest = []) :
    final.modes = state.modes := by
  cases reading with
  | ended settled => rw [← settled, modes_settle]
  | skipped | repeated | unrepeated | part => cases ended

/-- A sign that is apart is read behind what waits. -/
theorem read_settled (apart : Apart sign) (reads : state.modes.skipBlanks = false)
    (more : List Char) :
    read bound state position (sign :: more) =
      read bound (settle state) position (sign :: more) := by
  have visible : blank state.modes position (sign :: more) = .ok 0 := by
    have ended : blank state.modes position [] = .ok 0 := rfl
    simpa [reads] using blank_in_front apart ended more position
  have unrepeated : operator? state.modes (sign :: more) = none := by
    rcases apart with rfl | rfl <;> rfl
  cases waits : state.waiting with
  | none => rw [settle, waits]
  | some expression => exact read_unrepeated visible waits unrepeated

/-- A text that is read by itself is read alike in front of more and inside more parentheses, and
the reader goes on behind it, unless the parentheses are too many.

Proof: induction over the turns of the reader. In front of more each turn is the same, because
what it takes lies in the text; it cannot have skipped blanks up to the end of the text, for then
they would be skipped at its end. -/
theorem read_append (apart : Apart sign) (grows : bound ≤ larger) {more : List Char}
    (unbraced : '\x7d' ∉ sign :: more) (outer : List (Enclosure × Level))
    (reading : Reading bound final state position rest)
    (reads : final.modes.skipBlanks = false) (place : Nat) :
    (∃ behind, read larger (state.within outer) place (rest ++ sign :: more) =
      read larger (final.within outer) behind (sign :: more)) ∨
    ∃ behind, read larger (state.within outer) place (rest ++ sign :: more) =
      .error (.malformed behind .tooDeep) := by
  have inside (state : State) : (state.within outer).modes = state.modes := rfl
  have visible {state : State} {position : Nat} {first : Char} {others : List Char}
      (alone : blank state.modes position (first :: others) = .ok 0) (place : Nat) :
      blank (state.within outer).modes place (first :: (others ++ sign :: more)) = .ok 0 := by
    rcases blank_in_front apart alone more place with same | ⟨_, whole⟩
    · exact same
    · cases whole
  -- Blanks were skipped up to the end of the text, and so they are at its end.
  have absurdly {state : State} {position : Nat} {text : List Char} (skips : state.modes.skipBlanks)
      (onward : Reading bound final state position text) (ended : text = []) : False := by
    rw [onward.modes_eq ended, skips] at reads
    cases reads
  induction reading generalizing place with
  | @ended state position settled checked closed =>
    subst settled
    rw [modes_settle] at reads
    have reads : (state.within outer).modes.skipBlanks = false := reads
    refine .inl ⟨place, ?_⟩
    rw [List.nil_append, ← settle_within]
    exact read_settled apart reads more
  | @skipped state position count first others skips onward induction =>
    have short := blank_le skips
    rw [List.length_cons] at short
    rcases blank_in_front apart skips more place with same | ⟨skips, whole⟩
    · rw [List.cons_append] at same ⊢
      rw [← inside] at same
      rw [read_skipped same, List.drop_append_of_le_length (Nat.le_of_succ_le_succ short)]
      exact induction _
    · rw [List.length_cons] at whole
      exact (absurdly skips onward (List.drop_eq_nil_of_le (by omega))).elim
  | @repeated state position taken further first others expression bounds kind alone waits repeats
      repeatable manners onward induction =>
    obtain ⟨some, short⟩ := operator_bounds repeats
    have repeats := (operator_append unbraced others).trans repeats
    obtain ⟨within, again⟩ := manner_append apart manners more
      (place + byteLength ((first :: others ++ sign :: more).take taken))
    rw [List.length_drop] at within again
    rw [List.length_cons] at short within again
    rcases again with again | ⟨skips, whole⟩
    · rw [← List.drop_append_of_le_length (by rw [List.length_cons]; omega)] at again
      rw [List.cons_append] at repeats again ⊢
      rw [read_repeated (visible alone place) waits repeats, if_pos repeatable]
      simp only [inside, again, bind, Except.bind]
      rw [List.drop_append_of_le_length (by omega)]
      exact induction _
    · have skips : (state.repeated expression bounds kind).modes.skipBlanks := skips
      exact (absurdly skips onward (List.drop_eq_nil_of_le (by omega))).elim
  | @unrepeated state position first others expression alone waits unrepeated onward induction =>
    have unrepeated := (operator_append unbraced others).trans unrepeated
    rw [List.cons_append] at unrepeated
    rw [List.cons_append, read_unrepeated (visible alone place) waits unrepeated, settle_within]
    exact induction place
  | @part state next position taken first others alone ready reads onward induction =>
    rw [List.cons_append, read_part (visible alone place) ready]
    obtain ⟨short, again | deep | ⟨skips, whole, _⟩⟩ := part_append apart grows reads more outer place
    · rw [again]
      simp only [bind, Except.bind, List.drop_append_of_le_length short]
      exact induction _
    · rw [deep]
      exact .inr ⟨place, rfl⟩
    · exact (absurdly skips onward (List.drop_eq_nil_of_le (Nat.le_of_eq whole.symm))).elim

end Highlighter.Regex.Parser

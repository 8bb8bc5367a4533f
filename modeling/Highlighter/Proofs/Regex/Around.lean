import Highlighter.Proofs.Regex.Inside

/-!
# Texts that are put in a group

A text that can be read alone can be read in a group, in front of the parenthesis that closes it,
unless too many groups are open then. One kind of text loses the parenthesis, see `Reading.around`:
where blanks and comments are skipped, a comment at the end of the text goes on behind it, and takes
the parenthesis with it. The group is open at the end then, and that is what the reader says.

`read_append` leaves such texts out, whether they end with a comment or not; here the last line
decides.
-/

namespace Highlighter.Regex.Parser

open Text (byteLength)

variable {rest : List Char} {taken position bound larger : Nat} {modes : Modes}
  {state final : State}

/-- The last line of the text has a sign that begins a comment where blanks are skipped. -/
def Commented (text : List Char) : Prop := ∃ line, '#' :: line <:+ text ∧ '\n' ∉ line

theorem Commented.of_suffix {ending text : List Char} (commented : Commented ending)
    (suffix : ending <:+ text) : Commented text := by
  obtain ⟨line, ends, single⟩ := commented
  exact ⟨line, ends.trans suffix, single⟩

/-- A comment takes the parenthesis behind it only if nothing else ends it. -/
theorem blank_around (done : blank modes position rest = .ok taken) (place : Nat) :
    blank modes place (rest ++ [')']) = .ok taken ∨
      modes.skipBlanks ∧ Commented rest ∧ taken = rest.length ∧
        blank modes place (rest ++ [')']) = .ok (taken + 1) := by
  by_cases inline : ∃ inner, rest = '(' :: '?' :: '#' :: inner
  · obtain ⟨inner, rfl⟩ := inline
    obtain ⟨length, closed, rfl⟩ := Attempt.map_eq_ok_iff.mp done
    rw [← List.append_nil inner] at closed
    have within := (comment_length_bounds closed).2
    rw [List.append_nil] at within
    have again := comment_length_append closed within [')'] (place + 3)
    exact .inl (by simp [blank, again, Except.map])
  have bare (inner : List Char) : rest ≠ ['(', '?', '#'] ++ inner :=
    fun same => inline ⟨inner, same⟩
  have longer : ∀ inner, rest ++ [')'] ≠ ['(', '?', '#'] ++ inner :=
    not_begin_append bare (by simp)
  cases rest with
  | nil =>
    cases done
    exact .inl (blank_parenthesis modes place [])
  | cons first others =>
    by_cases hash : first = '#'
    · subst hash
      simp only [List.cons_append, blank] at done ⊢
      by_cases skips : modes.skipBlanks
      · simp only [skips, if_true] at done ⊢
        by_cases ended : (others.takeWhile (· ≠ '\n')).length < others.length
        · have further : (others.takeWhile (· ≠ '\n')).length < (others ++ [')']).length := by
            rw [List.length_append]
            omega
          simp only [take_while_append ended, further, ended, if_true] at done ⊢
          exact .inl done
        · have whole : others.takeWhile (· ≠ '\n') = others :=
            (List.takeWhile_prefix _).eq_of_length_le (Nat.le_of_not_lt ended)
          have single : '\n' ∉ others := by
            intro among
            have told := List.takeWhile_eq_self_iff.mp whole _ among
            simp at told
          have passed : (others ++ [')']).takeWhile (· ≠ '\n') = others ++ [')'] := by
            rw [List.takeWhile_append, if_pos (by rw [whole])]
            rfl
          rw [whole, if_neg (Nat.lt_irrefl _)] at done
          cases done
          refine .inr ⟨trivial, ⟨others, List.suffix_refl _, single⟩, rfl, ?_⟩
          rw [passed, if_neg (Nat.lt_irrefl _), List.length_append]
          rfl
      · simp only [skips] at done ⊢
        exact .inl done
    · rw [List.cons_append] at longer ⊢
      rw [blank_of_uncommented bare hash] at done
      rw [blank_of_uncommented longer hash]
      exact .inl done

/-- Nor do several of them, of which the last may be such a comment.

Proof: induction over the length of the text. -/
theorem blanks_around (done : blanks modes position rest = .ok taken) (place : Nat) :
    blanks modes place (rest ++ [')']) = .ok taken ∨
      modes.skipBlanks ∧ Commented rest ∧ taken = rest.length ∧
        blanks modes place (rest ++ [')']) = .ok (taken + 1) := by
  generalize counted : rest.length = length
  induction length using Nat.strongRecOn generalizing rest position place taken with
  | ind length induction =>
  subst counted
  cases rest with
  | nil =>
    rw [blanks] at done
    cases done
    rcases blank_around (rfl : blank modes position [] = .ok 0) place with same | ⟨_, ⟨_, ends, _⟩, _⟩
    · exact .inl (blanks_of_visible same)
    · cases List.suffix_nil.mp ends
  | cons first others =>
    rw [blanks] at done
    split at done
    · cases done
    · rename_i visible
      cases done
      rcases blank_around visible place with same | ⟨_, _, whole, _⟩
      · exact .inl (blanks_of_visible same)
      · cases whole
    · rename_i count skipped
      obtain ⟨further, onward, rfl⟩ := Attempt.map_eq_ok_iff.mp done
      have short := blank_le skipped
      rw [List.length_cons] at short induction
      have within : count ≤ others.length := Nat.le_of_succ_le_succ short
      have shorter : (others.drop count).length < others.length + 1 := by
        rw [List.length_drop]
        omega
      rcases blank_around skipped place with same | ⟨skips, commented, whole, swallowed⟩
      · rw [List.cons_append] at same ⊢
        rcases induction _ shorter onward
          (place + byteLength ((first :: (others ++ [')'])).take (count + 1))) rfl with
          again | ⟨skips, commented, whole, swallowed⟩
        · left
          rw [blanks, same]
          simp only [List.drop_append_of_le_length within, again]
          rfl
        · rw [List.length_drop] at whole
          refine .inr ⟨skips, commented.of_suffix ?_, ?_, ?_⟩
          · exact (List.drop_suffix _ _).trans (List.suffix_cons _ _)
          · rw [List.length_cons]
            omega
          · rw [blanks, same]
            simp only [List.drop_append_of_le_length within, swallowed, Except.map]
            rw [Nat.add_right_comm]
      · rw [List.length_cons] at whole
        have ended : others.drop count = [] := List.drop_eq_nil_of_le (by omega)
        rw [ended, blanks] at onward
        cases onward
        refine .inr ⟨skips, commented, by rw [List.length_cons]; omega, ?_⟩
        rw [List.cons_append] at swallowed ⊢
        rw [blanks, swallowed]
        simp only
        rw [List.drop_eq_nil_of_le (by rw [List.length_append, List.length_singleton]; omega), blanks]
        simp [Except.map]

theorem manner_around {kind : Bool × Bool}
    (done : manner modes position rest = .ok (kind, taken)) (place : Nat) :
    taken ≤ rest.length ∧ (manner modes place (rest ++ [')']) = .ok (kind, taken) ∨
      modes.skipBlanks ∧ Commented rest ∧ taken = rest.length ∧
        manner modes place (rest ++ [')']) = .ok (kind, taken + 1)) := by
  obtain ⟨gap, skipped, _⟩ := Attempt.bind_eq_ok_iff.mp done
  obtain ⟨within, ending⟩ := manner_le skipped done
  refine ⟨within, ?_⟩
  rcases blanks_around skipped place with same | ⟨skips, commented, rfl, swallowed⟩
  · exact .inl ((manner_of_blanks (.inr rfl) skipped same).trans done)
  · have whole : (rest ++ [')']).drop (rest.length + 1) = [] :=
      List.drop_eq_nil_of_le (by rw [List.length_append, List.length_singleton])
    obtain ⟨rfl, rfl⟩ := ending rfl
    refine .inr ⟨skips, commented, rfl, ?_⟩
    rw [manner, swallowed]
    simp [bind, Except.bind, pure, Except.pure, whole]

/-- At the end of the text a group around it is still open. -/
theorem Reading.unclosed (reading : Reading bound final state position [])
    {outer : List (Enclosure × Level)} (filled : outer ≠ []) (place : Nat) :
    read larger (state.within outer) place [] = .error (.malformed place .unclosedGroup) := by
  cases reading with
  | ended settled checked _ =>
    subst settled
    have checked : checkReferences ((settle state).within outer) = .ok () := checked
    have opened : ((settle state).within outer).enclosing.isEmpty = false := by
      cases outer <;> simp_all [State.within]
    rw [read, settle_within]
    simp only [checked, opened, bind, Except.bind]
    rfl

/-- A text that is read alone is read alike in front of the parenthesis that closes a group around
it, unless the groups are too many, or a comment at its end takes the parenthesis, so that the group
is not closed.

Proof: induction over the turns of the reader. The text that is left at a turn is the end of the
whole source, and so is the comment. -/
theorem Reading.around (grows : bound ≤ larger) {outer : List (Enclosure × Level)}
    (filled : outer ≠ []) (reading : Reading bound final state position rest) {source : List Char}
    (ends : rest <:+ source) (place : Nat) :
    ∃ behind,
      read larger (state.within outer) place (rest ++ [')']) =
          read larger (final.within outer) behind [')'] ∨
        read larger (state.within outer) place (rest ++ [')']) = .error (.malformed behind .tooDeep) ∨
        (read larger (state.within outer) place (rest ++ [')']) =
            .error (.malformed behind .unclosedGroup) ∧
          final.modes.skipBlanks ∧ Commented source) := by
  have inside (state : State) : (state.within outer).modes = state.modes := rfl
  have visible {state : State} {position : Nat} {first : Char} {others : List Char}
      (alone : blank state.modes position (first :: others) = .ok 0) (place : Nat) :
      blank (state.within outer).modes place (first :: (others ++ [')'])) = .ok 0 := by
    rcases blank_around alone place with same | ⟨_, _, whole, _⟩
    · exact same
    · cases whole
  have unbraced : '\x7d' ∉ [')'] := by decide
  have left {first : Char} {others : List Char} (ends : first :: others <:+ source) (count : Nat) :
      others.drop count <:+ source :=
    ((List.drop_suffix _ _).trans (List.suffix_cons _ _)).trans ends
  have passed {others : List Char} {count : Nat} (whole : others.length ≤ count) :
      (others ++ [')']).drop (count + 1) = [] := by
    rw [List.drop_eq_nil_of_le]
    rw [List.length_append, List.length_singleton]
    omega
  induction reading generalizing place with
  | @ended state position settled checked closed =>
    subst settled
    refine ⟨place, .inl ?_⟩
    rw [List.nil_append, ← settle_within]
    cases waits : (state.within outer).waiting with
    | none => rw [settle, waits]
    | some expression => exact read_unrepeated (blank_parenthesis _ _ _) waits rfl
  | @skipped state position count first others skips onward induction =>
    have short := blank_le skips
    rw [List.length_cons] at short
    rcases blank_around skips place with same | ⟨blanks, commented, whole, swallowed⟩
    · rw [List.cons_append] at same ⊢
      rw [← inside] at same
      rw [read_skipped same, List.drop_append_of_le_length (Nat.le_of_succ_le_succ short)]
      exact induction (left ends count) _
    · rw [List.length_cons] at whole
      have ended : others.drop count = [] := List.drop_eq_nil_of_le (by omega)
      rw [ended] at onward
      rw [List.cons_append] at swallowed ⊢
      rw [← inside] at swallowed
      rw [read_skipped swallowed, passed (Nat.le_of_eq (Nat.succ.inj whole).symm)]
      refine ⟨_, .inr (.inr ⟨onward.unclosed filled _, ?_, commented.of_suffix ends⟩)⟩
      rw [onward.modes_eq rfl]
      exact blanks
  | @repeated state position taken further first others expression bounds kind alone waits repeats
      repeatable manners onward induction =>
    obtain ⟨some, short⟩ := operator_bounds repeats
    have repeats := (operator_append unbraced others).trans repeats
    obtain ⟨within, again⟩ := manner_around manners
      (place + byteLength ((first :: others ++ [')']).take taken))
    rw [← List.drop_append_of_le_length short] at again
    rw [List.length_drop, List.length_cons] at within
    rw [List.length_cons] at short
    rw [List.cons_append] at repeats again ⊢
    rw [read_repeated (visible alone place) waits repeats, if_pos repeatable]
    rcases again with again | ⟨blanks, commented, whole, swallowed⟩
    · simp only [inside, again, bind, Except.bind]
      rw [List.drop_append_of_le_length (by omega)]
      exact induction (left ends _) _
    · rw [List.length_drop, List.length_cons] at whole
      have ended : others.drop (taken + further - 1) = [] := List.drop_eq_nil_of_le (by omega)
      rw [ended] at onward
      have count : taken + (further + 1) - 1 = (taken + further - 1) + 1 := by omega
      simp only [inside, swallowed, bind, Except.bind, count]
      rw [passed (by omega)]
      refine ⟨_, .inr (.inr ⟨onward.unclosed filled _, ?_, ?_⟩)⟩
      · rw [onward.modes_eq rfl]
        exact blanks
      · exact commented.of_suffix ((List.drop_suffix _ _).trans ends)
  | @unrepeated state position first others expression alone waits unrepeated onward induction =>
    have unrepeated := (operator_append unbraced others).trans unrepeated
    rw [List.cons_append] at unrepeated
    rw [List.cons_append, read_unrepeated (visible alone place) waits unrepeated, settle_within]
    exact induction ends place
  | @part state next position taken first others alone ready reads onward induction =>
    rw [List.cons_append, read_part (visible alone place) ready]
    obtain ⟨short, again | deep | ⟨_, whole, opened⟩⟩ :=
      part_append (.inr rfl) grows reads [] outer place
    · rw [again]
      simp only [bind, Except.bind, List.drop_append_of_le_length short]
      exact induction (left ends taken) _
    · rw [deep]
      exact ⟨place, .inr (.inl rfl)⟩
    · exact absurd (onward.enclosing_eq (List.drop_eq_nil_of_le (Nat.le_of_eq whole.symm))) opened

/-- The parenthesis ends the group and the text, unless groups are referred to both by name and by
number: the group is one sequence, even if the text has alternatives. -/
theorem Reading.read_parenthesis (reading : Reading bound final state position rest)
    (modes : Modes) (place : Nat) :
    read larger (final.within [(.plain modes, {})]) place [')'] =
      if final.numbered && !final.names.isEmpty then .error (.unsupported .numberedReference)
      else .ok { final with
        modes, level := ({} : Level).add final.level.expression.grouped, enclosing := [] } := by
  obtain ⟨closed, ready, checked⟩ := reading.closed_at_end
  have visible := blank_parenthesis (final.within [(.plain modes, {})]).modes place []
  have checked : checkReferences (final.within [(.plain modes, {})]) = .ok () := checked
  have undivided : (({} : Level).add final.level.expression.grouped).finished = [] := by
    rw [Level.add]
    split <;> rfl
  rw [read_part visible ready, Parser.part, closeGroup, checked]
  simp only [State.within, closed, List.nil_append, bind, Except.bind, pure, Except.pure, Except.map,
    List.drop_nil]
  rw [read]
  simp only [settle, checkReferences, Enclosure.wrap, undivided, List.isEmpty_nil, Bool.true_and]
  cases final.numbered && !final.names.isEmpty <;> simp [bind, Except.bind, pure, Except.pure, ready]

end Highlighter.Regex.Parser

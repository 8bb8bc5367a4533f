import Highlighter.Proofs.Regex.Modes
import Highlighter.Proofs.Regex.Prefixes
import Highlighter.Proofs.Regex.References

/-!
# Texts in a group of their own

A text that is put in parentheses is read in front of the one that closes them. What can be read
there can be read alone, see `Reading.inside`: nothing but a closing parenthesis takes that
parenthesis, so whatever is taken lies in the text, and is taken at the end of a text as well. There
is one exception. The text may hold a closing parenthesis of its own, with nothing open in the text;
alone it is refused there, but in the group it closes the group, and what follows it may open
another one that the last parenthesis closes.

This is the converse of `read_append`. Each step of the reader has its lemma here as it has there.
-/

namespace Highlighter.Regex

variable {rest : List Char} {taken : Nat}

namespace Escape

theorem delimited_inside {opening closing : List Char} {name : String}
    (found : delimited? opening closing (rest ++ [')']) = some (name, taken))
    (within : taken ≤ rest.length) : delimited? opening closing rest = some (name, taken) := by
  have other : isNameCharacter ')' = false := by decide
  simp only [delimited?, Option.ite_none_right_eq_some, Option.ite_none_left_eq_some,
    Option.some.injEq, Prod.mk.injEq, Bool.or_eq_true, not_or, Bool.not_eq_true,
    Bool.not_eq_eq_eq_not, Bool.not_true, Bool.not_eq_false, List.isPrefixOf_iff_prefix] at found ⊢
  obtain ⟨opens, ⟨named, closes⟩, same, counted⟩ := found
  have begun : opening <+: rest :=
    List.prefix_of_prefix_length_le opens (List.prefix_append _ _) (by omega)
  have split : (rest ++ [')']).drop opening.length = rest.drop opening.length ++ [')'] :=
    List.drop_append_of_le_length begun.length_le
  rw [split, take_while_in_front other] at named closes same counted
  refine ⟨begun, ⟨named, ?_⟩, same, counted⟩
  rw [List.drop_append_of_le_length (by omega)] at closes
  refine List.prefix_of_prefix_length_le closes (List.prefix_append _ _) ?_
  rw [List.length_drop]
  omega

theorem hex_digits_inside {count : Nat} {digits : List Char}
    (found : hexDigits? count (rest ++ [')']) = some (digits, taken))
    (within : taken ≤ rest.length) : hexDigits? count rest = some (digits, taken) := by
  have other : isHexDigit ')' = false := by decide
  simp only [hexDigits?.eq_def] at found ⊢
  split at found
  · rename_i plain
    cases found
    rw [List.take_append_of_le_length within] at plain ⊢
    rw [if_pos plain]
  · rename_i short
    cases rest with
    | nil => simp at found
    | cons first inner =>
      rw [List.cons_append] at found short
      split at found
      · rename_i same
        obtain ⟨rfl, rfl⟩ := List.cons.inj same
        simp only [take_while_in_front other, Option.ite_none_left_eq_some,
          Option.ite_none_right_eq_some, Option.some.injEq, Prod.mk.injEq] at found
        obtain ⟨few, closes, rfl, rfl⟩ := found
        rw [List.length_cons] at within
        have braced : ¬ ((('\x7b' :: inner).take count).length = count ∧
            (('\x7b' :: inner).take count).all isHexDigit) := by
          have apart : isHexDigit '\x7b' = false := by decide
          cases count with
          | zero => exact absurd (by simp) short
          | succ count => simp [apart]
        rw [List.drop_append_of_le_length (by omega), Apart.head_iff (.inr rfl) (by decide)] at closes
        rw [if_neg braced]
        simp only [if_neg few, if_pos closes]
      · cases found

theorem hexadecimal_inside {count position : Nat} {meaning : Meaning}
    (done : hexadecimal count position (rest ++ [')']) = .ok (meaning, taken))
    (within : taken ≤ rest.length) (place : Nat) :
    hexadecimal count place rest = .ok (meaning, taken) := by
  rw [hexadecimal] at done
  cases found : hexDigits? count (rest ++ [')']) with
  | none => simp [found] at done
  | some pair =>
    obtain ⟨digits, length⟩ := pair
    rw [found] at done
    cases known : character? (value 16 digits) with
    | none => simp [known] at done
    | some character =>
      simp only [known, Except.ok.injEq, Prod.mk.injEq] at done
      obtain ⟨rfl, rfl⟩ := done
      rw [hexadecimal, hex_digits_inside found within]
      simp only [known]

theorem property_inside {caseInsensitive negated : Bool} {position : Nat} {first : Char}
    {meaning : Meaning}
    (done : property caseInsensitive negated position first (rest ++ [')']) = .ok (meaning, taken))
    (place : Nat) :
    property caseInsensitive negated place first rest = .ok (meaning, taken) := by
  rw [property] at done ⊢
  by_cases opened : first = '\x7b'
  · rw [if_pos opened, braced?] at done ⊢
    by_cases closed : (rest.takeWhile (· ≠ '\x7d')).length < rest.length
    · have further : (rest.takeWhile (· ≠ '\x7d')).length < (rest ++ [')']).length := by
        rw [List.length_append]
        omega
      simp only [closed, further, if_true, take_while_append closed] at done ⊢
      exact done
    · -- The brace would have to be the parenthesis.
      have whole : rest.takeWhile (· ≠ '\x7d') = rest :=
        (List.takeWhile_prefix _).eq_of_length_le (Nat.le_of_not_lt closed)
      have passed : (rest ++ [')']).takeWhile (· ≠ '\x7d') = rest ++ [')'] := by
        rw [List.takeWhile_append, if_pos (by rw [whole])]
        rfl
      simp only [passed, Nat.lt_irrefl, if_false, reduceCtorEq] at done
  · rw [if_neg opened] at done ⊢
    exact done

/-- An escape that takes nothing of the parenthesis stands for the same at the end of the text. -/
theorem read_inside {caseInsensitive inBrackets : Bool} {position : Nat} {meaning : Meaning}
    (done : read caseInsensitive inBrackets position (rest ++ [')']) = .ok (meaning, taken))
    (within : taken ≤ rest.length) (place : Nat) :
    read caseInsensitive inBrackets place rest = .ok (meaning, taken) := by
  cases rest with
  | nil => exact absurd (taken_pos done) (Nat.not_lt.mpr within)
  | cons letter further =>
    rw [List.length_cons] at within
    let unknown : Problem := .malformed place (.unknownEscape (String.ofList ['\\', letter]))
    rw [List.cons_append] at done
    simp only [read] at done ⊢
    split at done
    · rename_i digit
      rw [if_pos digit]
      rw [← List.cons_append, decimal_in_front (by decide)] at done
      split at done
      · exact done
      · cases done
    rename_i digit
    rw [if_neg digit]
    split at done
    · rename_i named
      have quoted : (further ++ [')']).head? = some '\'' ↔ further.head? = some '\'' :=
        Apart.head_iff (.inr rfl) (by decide) []
      rw [if_pos named]
      simp only [quoted] at done
      split at done
      · rename_i name length found
        cases done
        rw [delimited_inside found (Nat.le_of_succ_le_succ within)]
      · cases done
    rename_i unnamed
    rw [if_neg unnamed]
    split at done
    · rename_i count _
      obtain ⟨⟨meant, length⟩, found, same⟩ := Attempt.map_eq_ok_iff.mp done
      cases same
      rw [hexadecimal_inside found (Nat.le_of_succ_le_succ within)]
      rfl
    · exact done
    · generalize (if inBrackets then none else conditionOf? letter) = meant at done ⊢
      cases further with
      | nil =>
        simp only [List.nil_append] at done
        split at done
        · -- The name of the property would be the parenthesis.
          cases done
          simp at within
        · split at done
          · cases done
          · exact (plain_eq_ok done unknown).2
      | cons first behind =>
        rw [List.length_cons] at within
        simp only [List.cons_append] at done ⊢
        split at done
        · rename_i lettered
          rw [if_pos lettered]
          exact property_inside done place
        rename_i unlettered
        rw [if_neg unlettered]
        split at done
        · cases done
        · rename_i unclosed
          rw [if_neg unclosed]
          exact (plain_eq_ok done unknown).2

end Escape

namespace Parser

open Text (byteLength)

variable {bound position : Nat} {modes : Modes} {first : Char} {others : List Char}
  {state next final : State}

theorem blank_inside (done : blank modes position (rest ++ [')']) = .ok taken)
    (within : taken ≤ rest.length) (place : Nat) : blank modes place rest = .ok taken := by
  by_cases commented : ∃ inner, rest = '(' :: '?' :: '#' :: inner
  · obtain ⟨inner, rfl⟩ := commented
    obtain ⟨length, closed, rfl⟩ := Attempt.map_eq_ok_iff.mp done
    have again := comment_length_append closed (Nat.le_of_add_le_add_right within) [] (place + 3)
    rw [List.append_nil] at again
    simp [blank, again, Except.map]
  have bare (inner : List Char) : rest ≠ ['(', '?', '#'] ++ inner :=
    fun same => commented ⟨inner, same⟩
  have longer : ∀ inner, rest ++ [')'] ≠ ['(', '?', '#'] ++ inner :=
    not_begin_append bare (by simp)
  cases rest with
  | nil =>
    obtain rfl := Nat.le_zero.mp within
    rfl
  | cons first others =>
    by_cases hash : first = '#'
    · subst hash
      rw [← List.append_nil ('#' :: others)]
      rcases line_comment_append [] place done within with same | ⟨ended, _⟩
      · exact same
      · cases ended
    · rw [List.cons_append] at done longer
      rw [blank_of_uncommented longer hash] at done
      rw [blank_of_uncommented bare hash]
      exact done

theorem blanks_inside (done : blanks modes position (rest ++ [')']) = .ok taken)
    (within : taken ≤ rest.length) (place : Nat) : blanks modes place rest = .ok taken := by
  generalize counted : rest.length = length
  induction length using Nat.strongRecOn generalizing rest position place taken with
  | ind length induction =>
  subst counted
  cases rest with
  | nil =>
    obtain rfl := Nat.le_zero.mp within
    rw [blanks]
  | cons first others =>
    rw [List.cons_append, blanks] at done
    split at done
    · cases done
    · rename_i visible
      cases done
      exact blanks_of_visible (blank_inside visible within place)
    · rename_i count skipped
      obtain ⟨further, onward, rfl⟩ := Attempt.map_eq_ok_iff.mp done
      rw [List.length_cons] at within induction
      have short : count ≤ others.length := by omega
      rw [List.drop_append_of_le_length short] at onward
      rw [blanks, blank_inside skipped (by rw [List.length_cons]; omega) place]
      simp only
      rw [induction (others.drop count).length (by rw [List.length_drop]; omega) onward
        (by rw [List.length_drop]; omega) _ rfl]
      rfl

theorem manner_inside {kind : Bool × Bool}
    (done : manner modes position (rest ++ [')']) = .ok (kind, taken))
    (within : taken ≤ rest.length) (place : Nat) : manner modes place rest = .ok (kind, taken) := by
  obtain ⟨gap, skipped, ended⟩ := Attempt.bind_eq_ok_iff.mp done
  have fewer : gap ≤ taken := by
    cases ended
    omega
  have alone := blanks_inside skipped (Nat.le_trans fewer within) place
  exact (manner_of_blanks (.inr rfl) alone skipped).symm.trans done

theorem mode_letters_inside {start count : Nat} {negative encloses : Bool} {written : List Char}
    {result : Modes}
    (done : modeLetters start modes negative written (rest ++ [')']) taken =
      .ok (result, encloses, count))
    (within : count ≤ taken + rest.length) (place : Nat) :
    modeLetters place modes negative written rest taken = .ok (result, encloses, count) := by
  generalize counted : rest.length = length
  induction length using Nat.strongRecOn generalizing rest modes negative written taken with
  | ind length induction =>
  subst counted
  cases rest with
  | nil =>
    -- The parenthesis would be the end of the modes.
    rw [List.nil_append, modeLetters, blank_parenthesis] at done
    simp only [if_true] at done
    split at done
    · cases done
    · cases done
      rw [List.length_nil] at within
      omega
  | cons letter others =>
    rw [List.length_cons] at within induction
    have onward {modes : Modes} {negative : Bool}
        (done : modeLetters start modes negative (letter :: written) (others ++ [')']) (taken + 1) =
          .ok (result, encloses, count)) :
        modeLetters place modes negative (letter :: written) others (taken + 1) =
          .ok (result, encloses, count) :=
      induction _ (Nat.lt_succ_self _) done (by omega) rfl
    rw [List.cons_append, modeLetters] at done
    rw [modeLetters]
    split at done
    · cases done
    · rename_i length skipped
      by_cases short : length ≤ others.length
      · rw [← List.cons_append] at skipped
        rw [blank_inside skipped (Nat.succ_le_succ short)]
        rw [List.drop_append_of_le_length short] at done
        simp only [List.take_succ_cons, List.take_append_of_le_length short] at done ⊢
        exact induction _ (by rw [List.length_drop]; omega) done (by rw [List.length_drop]; omega) rfl
      · rw [List.drop_eq_nil_of_le (by rw [List.length_append, List.length_singleton]; omega),
          modeLetters] at done
        cases done
    · rename_i visible
      rw [← List.cons_append] at visible
      rw [blank_inside visible (Nat.zero_le _)]
      simp only at done ⊢
      split at done
      · rename_i closes
        rw [if_pos closes]
        split at done
        · cases done
        · rename_i well
          rw [if_neg well]
          exact done
      rename_i closes
      rw [if_neg closes]
      split at done
      · rename_i colon
        rw [if_pos colon]
        split at done
        · cases done
        · rename_i well
          rw [if_neg well]
          exact done
      rename_i colon
      rw [if_neg colon]
      split at done
      · rename_i dash
        rw [if_pos dash]
        split at done
        · cases done
        · rename_i positive
          rw [if_neg positive]
          exact onward done
      rename_i dash
      rw [if_neg dash]
      split at done
      · exact onward done
      · split at done <;> cases done

theorem named_inside {openings closings : List Char} {group : String → Opening} {skip : Nat}
    {fault : Problem} {begun : Opening}
    (done : (match Escape.delimited? openings closings (rest ++ [')']) with
      | some (name, length) => .ok (group name, skip + length)
      | none => .error fault : Except Problem (Opening × Nat)) = .ok (begun, taken))
    (within : taken ≤ skip + rest.length) (other : Problem) :
    (match Escape.delimited? openings closings rest with
      | some (name, length) => .ok (group name, skip + length)
      | none => .error other : Except Problem (Opening × Nat)) = .ok (begun, taken) := by
  cases found : Escape.delimited? openings closings (rest ++ [')']) with
  | none => simp [found] at done
  | some pair =>
    obtain ⟨name, length⟩ := pair
    rw [found] at done
    cases done
    rw [Escape.delimited_inside found (by omega)]

/-- What the text with the parenthesis begins with the text begins with, if it is long enough. -/
theorem begins_inside {begun tail : List Char} (same : rest ++ [')'] = begun ++ tail)
    (fits : begun.length ≤ rest.length) :
    ∃ behind, rest = begun ++ behind ∧ tail = behind ++ [')'] := by
  rcases List.append_eq_append_iff.mp same with ⟨middle, rfl, ended⟩ | ⟨middle, whole, ended⟩
  · rw [List.length_append] at fits
    obtain rfl : middle = [] := List.eq_nil_of_length_eq_zero (by omega)
    exact ⟨[], by simp, by simpa using ended.symm⟩
  · exact ⟨middle, whole, ended⟩

/-- A name takes more than its delimiters. -/
theorem delimited_length {openings closings : List Char} {name : String}
    (found : Escape.delimited? openings closings rest = some (name, taken)) :
    openings.length + closings.length < taken := by
  simp only [Escape.delimited?, Option.ite_none_right_eq_some, Option.ite_none_left_eq_some,
    Option.some.injEq, Prod.mk.injEq, Bool.or_eq_true, not_or, List.isEmpty_iff] at found
  obtain ⟨_, ⟨named, _⟩, _, counted⟩ := found
  have some := List.length_pos_of_ne_nil named
  omega

theorem named_length {openings closings : List Char} {group : String → Opening} {skip : Nat}
    {fault : Problem} {begun : Opening}
    (done : (match Escape.delimited? openings closings rest with
      | some (name, length) => .ok (group name, skip + length)
      | none => .error fault : Except Problem (Opening × Nat)) = .ok (begun, taken)) :
    skip + openings.length + closings.length < taken := by
  cases found : Escape.delimited? openings closings rest with
  | none => simp [found] at done
  | some pair =>
    have some := delimited_length found
    rw [found] at done
    cases done
    omega

theorem opening_inside {begun : Opening}
    (done : opening modes position (rest ++ [')']) = .ok (begun, taken))
    (within : taken ≤ rest.length) (place : Nat) :
    opening modes place rest = .ok (begun, taken) := by
  obtain ⟨gap, skipped, chosen⟩ := Attempt.bind_eq_ok_iff.mp done
  by_cases short : gap ≤ rest.length
  · have alone := blanks_inside skipped short place
    have left : rest.length = gap + (rest.drop gap).length := by
      rw [List.length_drop]
      omega
    simp only [bind, Except.bind, List.drop_append_of_le_length short] at chosen
    split at chosen
    case h_1 same | h_2 same | h_9 same =>
      cases chosen
      obtain ⟨_, ahead, _⟩ := @begins_inside _ ['?', _] _ same (by simp; omega)
      rw [opening, alone]
      simp only [bind, Except.bind, ahead, List.cons_append]
    case h_3 same | h_4 same =>
      cases chosen
      obtain ⟨_, ahead, _⟩ := @begins_inside _ ['?', '<', _] _ same (by simp; omega)
      rw [opening, alone]
      simp only [bind, Except.bind, ahead, List.cons_append]
    case h_5 behind looks negates same =>
      have counted := named_length chosen
      obtain ⟨others, ahead, rfl⟩ :=
        @begins_inside _ ['?', '<'] _ same (by simp at counted ⊢; omega)
      have again := @named_inside ('<' :: others) _ _ _ _ _ _ _ chosen
        (by simp [ahead] at left ⊢; omega)
      cases others with
      | nil =>
        have unnamed := again (.exceeded .steps)
        simp [Escape.delimited?] at unnamed
      | cons letter others =>
        have unequal : letter ≠ '=' := fun equals => looks (others ++ [')']) (by rw [equals]; rfl)
        have unnegated : letter ≠ '!' :=
          fun equals => negates (others ++ [')']) (by rw [equals]; rfl)
        rw [opening, alone]
        simp only [bind, Except.bind, ahead, List.cons_append, List.nil_append, List.cons.injEq,
          unequal, unnegated, false_and, imp_self, implies_true]
        exact again _
    case h_6 behind same =>
      have counted := named_length chosen
      obtain ⟨others, ahead, rfl⟩ :=
        @begins_inside _ ['?', '\''] _ same (by simp at counted ⊢; omega)
      rw [opening, alone]
      simp only [bind, Except.bind, ahead, List.cons_append, List.nil_append]
      exact @named_inside ('\'' :: others) _ _ _ _ _ _ _ chosen (by simp [ahead] at left ⊢; omega) _
    case h_7 behind same =>
      have counted := named_length chosen
      obtain ⟨others, ahead, rfl⟩ :=
        @begins_inside _ ['?', 'P', '<'] _ same (by simp at counted ⊢; omega)
      rw [opening, alone]
      simp only [bind, Except.bind, ahead, List.cons_append, List.nil_append]
      exact @named_inside ('<' :: others) _ _ _ _ _ _ _ chosen (by simp [ahead] at left ⊢; omega) _
    case h_8 behind same =>
      have counted := @named_length _ _ _ _ .reference _ _ _ chosen
      obtain ⟨others, ahead, rfl⟩ :=
        @begins_inside _ ['?', 'P', '='] _ same (by simp at counted ⊢; omega)
      rw [opening, alone]
      simp only [bind, Except.bind, ahead, List.cons_append, List.nil_append]
      exact @named_inside others _ _ _ .reference _ _ _ chosen (by simp [ahead] at left ⊢; omega) _
    case h_10 behind noLook noNegation _ _ noName noQuote noGroup noReference noAtom same =>
      obtain ⟨⟨newModes, encloses, count⟩, letters, chosen⟩ := Attempt.bind_eq_ok_iff.mp chosen
      simp only [Except.ok.injEq, Prod.mk.injEq] at chosen
      obtain ⟨rfl, rfl⟩ := chosen
      obtain ⟨others, ahead, rfl⟩ := @begins_inside _ ['?'] _ same (by simp; omega)
      have again := mode_letters_inside letters (by simp [ahead] at left; omega)
        (place + byteLength (rest.take gap) + 1)
      have bare : ∀ begun ∈ openers, ∀ tail, others ++ [')'] ≠ begun ++ tail := by
        simp only [openers, List.forall_mem_cons]
        exact ⟨noLook, noNegation, noName, noQuote, noAtom, noGroup, noReference,
          List.forall_mem_nil _⟩
      have lacks : ∀ begun ∈ openers, ∀ tail, others ≠ begun ++ tail := by
        intro begun listed tail begins
        exact bare begun listed (tail ++ [')']) (by rw [begins, List.append_assoc])
      have ahead : rest.drop gap = '?' :: others := ahead
      rw [opening_modes alone ahead lacks, again]
      rfl
    case h_11 unmarked =>
      rw [opening_capture alone fun behind ahead => unmarked (behind ++ [')']) (by rw [ahead]; rfl)]
      exact chosen
  · rw [List.drop_eq_nil_of_le (by rw [List.length_append, List.length_singleton]; omega)] at chosen
    cases chosen
    exact absurd within short

/-- A bracket expression ends before the parenthesis or not at all.

Proof: induction over the length of the text. -/
theorem bracket_items_inside {depth start count : Nat} {caseInsensitive : Bool}
    {items result : List Bracket.Item}
    (done : bracketItems bound caseInsensitive depth items position start (rest ++ [')']) =
      .ok (result, count)) (place : Nat) :
    bracketItems bound caseInsensitive depth items place start rest = .ok (result, count) := by
  generalize counted : rest.length = length
  induction length using Nat.strongRecOn generalizing rest depth items position start place with
  | ind length induction =>
  subst counted
  have ended {depth start position : Nat} {items : List Bracket.Item}
      (done : bracketItems bound caseInsensitive depth items position start [] =
        .ok (result, count)) : False := by
    rw [bracketItems] at done
    cases done
  cases rest with
  | nil =>
    rw [List.nil_append, bracketItems.eq_5 _ _ _ _ _ _ _ _ (by decide) (by decide)] at done
    exact (ended done).elim
  | cons first further =>
    rw [List.cons_append] at done
    have onward {depth start position place length : Nat} {items : List Bracket.Item}
        (done : bracketItems bound caseInsensitive depth items position start
          ((further ++ [')']).drop length) = .ok (result, count)) :
        length ≤ further.length ∧ bracketItems bound caseInsensitive depth items place start
          (further.drop length) = .ok (result, count) := by
      by_cases short : length ≤ further.length
      · rw [List.drop_append_of_le_length short] at done
        refine ⟨short, induction _ ?_ done place rfl⟩
        rw [List.length_cons, List.length_drop]
        omega
      · rw [List.drop_eq_nil_of_le (by rw [List.length_append, List.length_singleton]; omega)]
          at done
        exact (ended done).elim
    by_cases escaped : first = '\\'
    · subst escaped
      rw [bracketItems] at done ⊢
      cases described : Escape.read caseInsensitive true position (further ++ [')']) with
      | error problem => simp [described] at done
      | ok pair =>
        obtain ⟨meaning, length⟩ := pair
        rw [described] at done
        cases meaning with
        | character _ _ | set _ =>
          obtain ⟨short, again⟩ := onward done
          rw [Escape.read_inside described short place]
          exact again
        | number group =>
          simp only at done
          split at done <;> cases done
        | condition _ | name _ => cases done
    by_cases closes : first = ']'
    · subst closes
      cases depth with
      | zero =>
        rw [bracketItems] at done ⊢
        exact done
      | succ depth =>
        rw [bracketItems] at done ⊢
        exact (@onward _ _ _ _ 0 _ done).2
    · rw [bracketItems.eq_5 _ _ _ _ _ _ _ _ escaped closes] at done ⊢
      exact (@onward _ _ _ _ 0 _ done).2

theorem escape_inside {outer : List (Enclosure × Level)}
    (done : escape bound (state.within outer) position (rest ++ [')']) = .ok (next, taken))
    (within : taken ≤ rest.length) (place : Nat) :
    ∃ alone, next = State.within alone outer ∧
      escape bound state place rest = .ok (alone, taken) := by
  obtain ⟨⟨meaning, length⟩, described, meant⟩ := Attempt.bind_eq_ok_iff.mp done
  have names (name : String) : groupOf? (state.within outer) name = groupOf? state name := rfl
  have counted : length = taken := by
    cases meaning with
    | character _ _ | set _ | condition _ =>
      cases meant
      rfl
    | number group | name group =>
      simp only at meant
      split at meant <;> cases meant
      rfl
  subst counted
  have again : Escape.read state.modes.caseInsensitive false place rest = .ok (meaning, length) :=
    Escape.read_inside described within place
  rw [escape, again]
  cases meaning with
  | character _ _ | set _ | condition _ =>
    cases meant
    exact ⟨_, rfl, rfl⟩
  | number group =>
    simp only [bind, Except.bind] at meant ⊢
    split at meant
    · rename_i known
      cases meant
      rw [if_pos known]
      exact ⟨_, rfl, rfl⟩
    · cases meant
  | name name =>
    simp only [bind, Except.bind, names] at meant ⊢
    split at meant
    · cases meant
      exact ⟨_, rfl, rfl⟩
    · cases meant

theorem bracket_inside {outer : List (Enclosure × Level)}
    (done : bracket bound (state.within outer) position (rest ++ [')']) = .ok (next, taken))
    (place : Nat) :
    ∃ alone, next = State.within alone outer ∧
      bracket bound state place rest = .ok (alone, taken) := by
  have caretWithin := sign_le '^' (Nat.zero_le rest.length)
  have closingWithin := sign_le ']' caretWithin
  simp only [Nat.zero_add, List.drop_zero] at caretWithin closingWithin
  have negated : (rest ++ [')']).head? = some '^' ↔ rest.head? = some '^' :=
    Apart.head_iff (.inr rfl) (by decide) []
  have closes : ((rest ++ [')']).drop (if rest.head? = some '^' then 1 else 0)).head? = some ']' ↔ _ :=
    Apart.drop_head_iff (.inr rfl) caretWithin ']' (by decide) []
  obtain ⟨⟨items, length⟩, listed, meant⟩ := Attempt.bind_eq_ok_iff.mp done
  simp only [negated, closes, List.take_append_of_le_length closingWithin,
    List.drop_append_of_le_length closingWithin] at listed meant
  cases meant
  let set := Bracket.parse? state.modes.caseInsensitive items.reverse
  refine ⟨{ state with waiting := some (.one set) }, rfl, ?_⟩
  have again (place : Nat) := bracket_items_inside listed place
  have modes : (state.within outer).modes = state.modes := rfl
  rw [modes] at again
  rw [bracket]
  simp only [again]
  rfl

theorem close_group_inside {outer : List (Enclosure × Level)}
    (done : closeGroup (state.within outer) position = .ok next) (place : Nat) :
    (∃ alone, next = State.within alone outer ∧ closeGroup state place = .ok alone) ∨
      state.enclosing = [] ∧ closeGroup state place = .error (.malformed place .unopenedGroup) := by
  obtain ⟨_, checked, closed⟩ := Attempt.bind_eq_ok_iff.mp done
  have same : checkReferences state = .ok () := checked
  rw [closeGroup, same]
  cases opened : state.enclosing with
  | nil => exact .inr ⟨rfl, rfl⟩
  | cons innermost others =>
    simp only [State.within, opened, List.cons_append] at closed
    cases closed
    exact .inl ⟨_, rfl, rfl⟩

theorem open_group_inside {outer : List (Enclosure × Level)}
    (done : openGroup (state.within outer) position (rest ++ [')']) = .ok (next, taken))
    (within : taken ≤ rest.length) (place : Nat) :
    ∃ alone, next = State.within alone outer ∧
      openGroup state place rest = .ok (alone, taken) := by
  by_cases deep : maximalDepth ≤ (state.within outer).enclosing.length
  · rw [open_group_deep deep] at done
    cases done
  have fewer : ¬ maximalDepth ≤ state.enclosing.length := by
    simp only [State.within, List.length_append] at deep
    omega
  have names (name : String) : groupOf? (state.within outer) name = groupOf? state name := rfl
  have modes : (state.within outer).modes = state.modes := rfl
  simp only [openGroup, fewer, deep, if_false, bind, Except.bind, pure, Except.pure, names,
    modes] at done ⊢
  cases begun : opening state.modes (position + 1) (rest ++ [')']) with
  | error problem => simp [begun] at done
  | ok pair =>
    obtain ⟨opened, length⟩ := pair
    rw [begun] at done
    have again (short : length ≤ rest.length) := opening_inside begun short (place + 1)
    cases opened with
    | reference name =>
      simp only at done
      split at done
      · rename_i known
        cases done
        rw [again within]
        simp only [known]
        exact ⟨_, rfl, rfl⟩
      · split at done <;> cases done
    | modes newModes encloses =>
      cases encloses with
      | false | true =>
        cases done
        rw [again within]
        exact ⟨_, rfl, rfl⟩
    | group enclosure captures name =>
      cases done
      rw [again within]
      exact ⟨_, rfl, rfl⟩

/-- A part that takes nothing of the parenthesis is the same part at the end of the text. Only a
parenthesis of the text may close the group around the text. -/
theorem part_inside {outer : List (Enclosure × Level)}
    (done : part bound (state.within outer) position first (rest ++ [')']) = .ok (next, taken))
    (within : taken ≤ rest.length) (place : Nat) :
    (∃ alone, next = State.within alone outer ∧
        part bound state place first rest = .ok (alone, taken)) ∨
      part bound state place first rest = .error (.malformed place .unopenedGroup) := by
  unfold part at done ⊢
  split at done
  case h_1 | h_2 | h_3 | h_6 | h_12 =>
    cases done
    exact .inl ⟨_, rfl, rfl⟩
  case h_4 => exact .inl (open_group_inside done within place)
  case h_5 =>
    obtain ⟨closed, closes, same⟩ := Attempt.map_eq_ok_iff.mp done
    cases same
    rcases close_group_inside closes place with ⟨alone, rfl, again⟩ | ⟨_, unopened⟩
    · rw [again]
      exact .inl ⟨alone, rfl, rfl⟩
    · rw [unopened]
      exact .inr rfl
  case h_7 => exact .inl (escape_inside done within place)
  case h_8 => exact .inl (bracket_inside done (place + 1))
  case h_9 | h_10 | h_11 => cases done

/-- A part of more than one character closes no group. -/
theorem enclosing_of_part (done : part bound state position first rest = .ok (next, taken))
    (some : 0 < taken) : state.enclosing.length ≤ next.enclosing.length := by
  unfold part at done
  split at done
  case h_4 =>
    by_cases deep : maximalDepth ≤ state.enclosing.length
    · rw [open_group_deep deep] at done
      cases done
    simp only [openGroup, deep, if_false, bind, Except.bind, pure, Except.pure] at done
    split at done
    · cases done
    · split at done
      · split at done
        · cases done
          exact Nat.le_refl _
        · split at done <;> cases done
      · cases done
        exact Nat.le_refl _
      · cases done
        exact Nat.le_succ _
      · cases done
        exact Nat.le_succ _
  case h_5 =>
    obtain ⟨_, _, same⟩ := Attempt.map_eq_ok_iff.mp done
    cases same
    cases some
  case h_7 =>
    obtain ⟨⟨meaning, length⟩, _, meant⟩ := Attempt.bind_eq_ok_iff.mp done
    cases meaning with
    | character _ _ | set _ | condition _ =>
      cases meant
      exact Nat.le_refl _
    | number group | name group =>
      simp only at meant
      split at meant <;> cases meant
      exact Nat.le_refl _
  case h_8 =>
    obtain ⟨_, _, meant⟩ := Attempt.bind_eq_ok_iff.mp done
    cases meant
    exact Nat.le_refl _
  case h_9 | h_10 | h_11 => cases done
  all_goals
    cases done
    cases some

/-- At the end of the text no group is open. -/
theorem Reading.enclosing_eq (reading : Reading bound final state position rest)
    (ended : rest = []) : state.enclosing = [] := by
  cases reading with
  | ended settled _ closed =>
    rw [← closed, ← settled, settle]
    split <;> rfl
  | skipped | repeated | unrepeated | part => cases ended

/-- So what is taken while a group is open does not include the last parenthesis. -/
theorem Reading.length_le (onward : Reading bound final state position ((rest ++ [')']).drop taken))
    (opened : state.enclosing ≠ []) : taken ≤ rest.length := by
  by_contra long
  refine opened (onward.enclosing_eq (List.drop_eq_nil_of_le ?_))
  rw [List.length_append, List.length_singleton]
  omega

theorem settle_settle (state : State) : settle (settle state) = settle state := by
  rw [settle, waiting_settle]

/-- The level of a group alone is the group. -/
theorem Level.expression_add (body : Expr) :
    (({} : Level).add body.grouped).expression = body.grouped := by
  rw [add]
  split
  · rename_i nothing
    rw [nothing]
    rfl
  · rfl

/-- If the last parenthesis closes the group around a text, the reader would have been done with the
text alone. -/
theorem Reading.of_closed {whole : State} {modes : Modes} {behind : Nat}
    (onward : Reading bound whole next behind [])
    (done : Parser.part bound (state.within [(.plain modes, {})]) position ')' [] =
      .ok (next, taken))
    (ready : state.waiting = none) (place : Nat) :
    Reading bound state state place [] ∧
      whole.level.expression = state.level.expression.grouped := by
  obtain ⟨_, closes, same⟩ := Attempt.map_eq_ok_iff.mp done
  cases same
  rcases close_group_inside closes place with ⟨alone, rfl, _⟩ | ⟨outermost, _⟩
  · -- It closes a group of the text, so that the one around it is still open.
    have opened := onward.enclosing_eq rfl
    simp [State.within] at opened
  · obtain ⟨_, checked, closes⟩ := Attempt.bind_eq_ok_iff.mp closes
    have checked : checkReferences state = .ok () := checked
    have settled : settle state = state := by rw [settle, ready]
    simp only [State.within, outermost, List.nil_append] at closes
    cases closes
    cases onward with
    | ended ends _ _ =>
      refine ⟨.ended settled checked outermost, ?_⟩
      rw [← ends]
      exact Level.expression_add _

/-- A text that is read in a group is read alike outside of it, or else has a parenthesis that is
not open.

Proof: induction over the turns of the reader in the group. None of them takes the parenthesis
behind the text with what is before it, for at the end of the text the group would still be
open. -/
theorem Reading.inside {whole inner : State} {text : List Char} {modes : Modes}
    (reading : Reading bound whole inner position text)
    (grouped : inner = state.within [(.plain modes, {})]) (closed : text = rest ++ [')'])
    (place : Nat) :
    (∃ final, Reading bound final state place rest ∧
        whole.level.expression = final.level.expression.grouped) ∨
      ∃ behind, read bound state place rest = .error (.malformed behind .unopenedGroup) := by
  have opened (state : State) : (state.within [(.plain modes, {})]).enclosing ≠ [] := by
    simp [State.within]
  have skipped {state : State} {position count : Nat} {first : Char} {others : List Char}
      (done : blank (state.within [(.plain modes, {})]).modes position
        (first :: (others ++ [')'])) = .ok count)
      (short : count ≤ others.length + 1) (place : Nat) :
      blank state.modes place (first :: others) = .ok count :=
    @blank_inside (first :: others) _ _ _ done short place
  induction reading generalizing state rest place with
  | ended => simp at closed
  | @skipped inner position count first others skips onward induction =>
    subst grouped
    cases rest with
    | nil =>
      cases closed
      rw [blank_parenthesis] at skips
      cases skips
    | cons first others =>
      cases closed
      have short := onward.length_le (opened state)
      have again := skipped skips (Nat.succ_le_succ short) place
      rcases induction rfl (List.drop_append_of_le_length short)
        (place + byteLength ((first :: others).take (count + 1))) with
        ⟨final, alone, same⟩ | ⟨behind, failed⟩
      · exact .inl ⟨final, .skipped again alone, same⟩
      · exact .inr ⟨behind, (read_skipped again).trans failed⟩
  | @repeated inner position taken further first others expression bounds kind visible waits repeats
      repeatable manners onward induction =>
    subst grouped
    cases rest with
    | nil =>
      cases closed
      cases repeats
    | cons first others =>
      cases closed
      have short := onward.length_le (opened (state.repeated expression bounds kind))
      have visible := skipped visible (Nat.zero_le _) place
      have repeats : operator? state.modes (first :: others) = some (bounds, taken) :=
        (operator_append (by decide) others).symm.trans repeats
      have taken_le := (operator_bounds repeats).2
      have manners := @manner_inside ((first :: others).drop taken) _ _ state.modes _
        (by rw [← List.drop_append_of_le_length taken_le]; exact manners)
        (by simp only [List.length_drop, List.length_cons] at taken_le ⊢; omega)
        (place + byteLength ((first :: others).take taken))
      rcases @induction _ (state.repeated expression bounds kind) rfl
        (List.drop_append_of_le_length short)
        (place + byteLength ((first :: others).take (taken + further))) with
        ⟨final, alone, same⟩ | ⟨behind, failed⟩
      · exact .inl ⟨final, .repeated visible waits repeats repeatable manners alone, same⟩
      · refine .inr ⟨behind, ?_⟩
        rw [read_repeated visible waits repeats, if_pos repeatable]
        refine (congrArg (· >>= _) manners).trans ?_
        exact failed
  | @unrepeated inner position first others expression visible waits unrepeated onward induction =>
    subst grouped
    cases rest with
    | nil =>
      cases closed
      rcases @induction [] _ (settle_within state _) rfl place with
        ⟨final, alone, same⟩ | ⟨behind, failed⟩
      · cases alone with
        | ended settled checked closed =>
          exact .inl ⟨final, .ended ((settle_settle state).symm.trans settled) checked closed, same⟩
      · refine .inr ⟨behind, ?_⟩
        rw [read, settle_settle] at failed
        rw [read]
        exact failed
    | cons first others =>
      cases closed
      have visible := skipped visible (Nat.zero_le _) place
      have unrepeated : operator? state.modes (first :: others) = none :=
        (operator_append (by decide) others).symm.trans unrepeated
      rcases @induction (first :: others) _ (settle_within state _) rfl place with
        ⟨final, alone, same⟩ | ⟨behind, failed⟩
      · exact .inl ⟨final, .unrepeated visible waits unrepeated alone, same⟩
      · exact .inr ⟨behind, (read_unrepeated visible waits unrepeated).trans failed⟩
  | @part inner next position taken first others visible ready reads onward induction =>
    subst grouped
    have ready : state.waiting = none := ready
    cases rest with
    | nil =>
      cases closed
      rw [List.drop_nil] at onward
      exact .inl ⟨state, onward.of_closed reads ready place⟩
    | cons first others =>
      cases closed
      have visible := skipped visible (Nat.zero_le _) place
      have short : taken ≤ others.length := by
        rcases Nat.eq_zero_or_pos taken with rfl | some
        · exact Nat.zero_le _
        · refine onward.length_le fun none => ?_
          have kept := enclosing_of_part reads some
          rw [none] at kept
          exact opened state (List.eq_nil_of_length_eq_zero (Nat.le_zero.mp kept))
      rcases part_inside reads short place with ⟨alone, rfl, again⟩ | unopened
      · rcases induction rfl (List.drop_append_of_le_length short)
          (place + byteLength ((first :: others).take (taken + 1))) with
          ⟨final, alone, same⟩ | ⟨behind, failed⟩
        · exact .inl ⟨final, .part visible ready again alone, same⟩
        · refine .inr ⟨behind, ?_⟩
          rw [read_part visible ready, again]
          exact failed
      · refine .inr ⟨place, ?_⟩
        rw [read_part visible ready, unopened]
        rfl

end Parser
end Highlighter.Regex

import Highlighter.Proofs.Regex.Escapes

/-!
# Blanks, comments and repetitions in front of more

Where blanks and comments are skipped up to the end of a text, more of them may follow. The laws
then say no more than that the end was reached so.

Bounds of a repetition need more than a text and the same text in front of more, because braces
that hold no bounds stand for themselves: more text must not make bounds of them. So the laws
about skipping are about two texts that differ in what they go on with, see `Replaces`, and bounds
are told by what stands where in the text, see `BoundsAt`.
-/

namespace Highlighter.Regex.Parser

open Text (byteLength)

variable {sign : Char} {rest former latter : List Char} {taken position : Nat} {modes : Modes}

/-- A character that ends no comment and escapes nothing is counted. -/
theorem comment_length_cons {first : Char} (opened : first ≠ ')') (plain : first ≠ '\\')
    (others : List Char) : commentLength position (first :: others) =
      (commentLength (position + first.utf8Size) others).map (· + 1) :=
  commentLength.eq_5 _ _ _ opened (fun escaped => absurd escaped plain)
    fun _ _ escaped => absurd escaped plain

/-- A comment takes its closing parenthesis at least, and no more characters than there are. -/
theorem comment_length_bounds (closed : commentLength position rest = .ok taken) :
    0 < taken ∧ taken ≤ rest.length := by
  induction position, rest using commentLength.induct generalizing taken with
  | case1 | case3 => cases closed
  | case2 position rest =>
    cases closed
    simp
  | case4 position character rest induction =>
    obtain ⟨length, inner, rfl⟩ := Attempt.map_eq_ok_iff.mp closed
    have bounds := induction inner
    simp only [List.length_cons]
    omega
  | case5 position character rest plain unfinished unescaped induction =>
    rw [commentLength.eq_5 _ _ _ plain unfinished unescaped] at closed
    obtain ⟨length, inner, rfl⟩ := Attempt.map_eq_ok_iff.mp closed
    have bounds := induction inner
    simp only [List.length_cons]
    omega

/-- How long a comment is does not depend on what follows it. -/
theorem comment_length_append (closed : commentLength position (rest ++ former) = .ok taken)
    (within : taken ≤ rest.length) (latter : List Char) (place : Nat) :
    commentLength place (rest ++ latter) = .ok taken := by
  induction position, rest using commentLength.induct generalizing taken place with
  | case1 position =>
    have some := (comment_length_bounds closed).1
    rw [List.length_nil] at within
    omega
  | case2 position rest => exact closed
  | case3 position =>
    cases former with
    | nil => cases closed
    | cons first others =>
      obtain ⟨length, inner, rfl⟩ := Attempt.map_eq_ok_iff.mp closed
      have some := (comment_length_bounds inner).1
      rw [List.length_singleton] at within
      omega
  | case4 position character rest induction =>
    obtain ⟨length, inner, rfl⟩ := Attempt.map_eq_ok_iff.mp closed
    have again := induction inner (Nat.le_of_add_le_add_right within)
      (place + 1 + character.utf8Size)
    simp only [List.cons_append, commentLength, again, Except.map]
  | case5 position character rest opened unfinished unescaped induction =>
    have plain : character ≠ '\\' := by
      rintro rfl
      cases rest with
      | nil => exact unfinished rfl rfl
      | cons second others => exact unescaped second others rfl rfl
    rw [List.cons_append, comment_length_cons opened plain] at closed ⊢
    obtain ⟨length, inner, rfl⟩ := Attempt.map_eq_ok_iff.mp closed
    rw [induction inner (Nat.le_of_add_le_add_right within)]
    rfl

/-- A text may go on with the latter instead of the former: the latter begins with a sign that
belongs to no comment begun in front of it, and the former begins with the same sign or is the
end of the text. -/
structure Replaces (former latter : List Char) : Prop where
  filled : latter ≠ []
  apart : ∀ sign ∈ latter.head?, sign ∉ ['(', '?', '#']
  same : former = [] ∨ former.head? = latter.head?

namespace Replaces

theorem former_apart (replaces : Replaces former latter) :
    ∀ sign ∈ former.head?, sign ∉ ['(', '?', '#'] := by
  rcases replaces.same with rfl | same
  · exact fun sign listed => nomatch listed
  · exact same ▸ replaces.apart

/-- A text that ends may go on with a sign that is apart. -/
theorem of_end (apart : Apart sign) (more : List Char) : Replaces [] (sign :: more) where
  filled := List.cons_ne_nil _ _
  apart := by
    rintro _ ⟨⟩
    rcases apart with rfl | rfl <;> decide
  same := .inl rfl

end Replaces

/-- A text that begins with no comment begins with one blank at most. -/
theorem blank_of_uncommented {first : Char}
    (bare : ∀ inner, first :: rest ≠ ['(', '?', '#'] ++ inner) (visible : first ≠ '#') :
    blank modes position (first :: rest) =
      .ok (if modes.skipBlanks && [' ', '\r', '\n', '\t'].contains first then 1 else 0) := by
  unfold blank
  split
  · rename_i inner same
    exact absurd same (bare inner)
  · rename_i inner same
    cases same
    exact absurd rfl visible
  · rename_i same
    cases same
    rfl
  · rename_i same
    cases same

/-- A closing parenthesis is not skipped. -/
theorem blank_parenthesis (modes : Modes) (position : Nat) (rest : List Char) :
    blank modes position (')' :: rest) = .ok 0 := by
  rw [blank_of_uncommented (by simp) (by decide)]
  simp

theorem blank_le (done : blank modes position rest = .ok taken) : taken ≤ rest.length := by
  unfold blank at done
  split at done
  · obtain ⟨length, closed, rfl⟩ := Attempt.map_eq_ok_iff.mp done
    exact Nat.add_le_add_right (comment_length_bounds closed).2 3
  · rename_i inner
    have within := (List.takeWhile_prefix (l := inner) (· ≠ '\n')).length_le
    split at done
    · cases done
      rw [List.length_cons]
      split <;> omega
    · cases done
      exact Nat.zero_le _
  · cases done
    split <;> simp
  · cases done
    exact Nat.le_refl _

/-- A comment up to the end of a line ends there, or it reaches the end of the text. -/
theorem line_comment_append (latter : List Char) (place : Nat)
    (done : blank modes position ('#' :: rest ++ former) = .ok taken)
    (within : taken ≤ ('#' :: rest).length) :
    blank modes place ('#' :: rest ++ latter) = .ok taken ∨
      former = [] ∧ modes.skipBlanks ∧ taken = ('#' :: rest).length := by
  have counted := (List.takeWhile_prefix (l := rest) (· ≠ '\n')).length_le
  rw [List.length_cons] at within ⊢
  simp only [List.cons_append, blank] at done ⊢
  by_cases skips : modes.skipBlanks
  · simp only [skips, if_true] at done ⊢
    by_cases ended : (rest.takeWhile (· ≠ '\n')).length < rest.length
    · have longer (more : List Char) :
          (rest.takeWhile (· ≠ '\n')).length < (rest ++ more).length := by
        rw [List.length_append]
        omega
      simp only [take_while_append ended, longer, if_true] at done ⊢
      exact .inl done
    · have whole : rest.takeWhile (· ≠ '\n') = rest :=
        (List.takeWhile_prefix (· ≠ '\n')).eq_of_length (by omega)
      have passed : rest.length ≤ ((rest ++ former).takeWhile (· ≠ '\n')).length := by
        rw [List.takeWhile_append, if_pos (by rw [whole]), List.length_append]
        exact Nat.le_add_right _ _
      have counts := Except.ok.inj done
      split at counts
      · omega
      · rename_i full
        rw [List.length_append] at full
        exact .inr ⟨List.eq_nil_of_length_eq_zero (by omega), trivial, by omega⟩
  · simp only [skips] at done ⊢
    exact .inl done

/-- A blank or comment is taken again where the text goes on otherwise, unless it reaches the end
of the text. -/
theorem blank_append (replaces : Replaces former latter)
    (done : blank modes position (rest ++ former) = .ok taken) (within : taken ≤ rest.length)
    (place : Nat) :
    blank modes place (rest ++ latter) = .ok taken ∨
      former = [] ∧ modes.skipBlanks ∧ taken = rest.length := by
  by_cases commented : ∃ inner, rest = '(' :: '?' :: '#' :: inner
  · obtain ⟨inner, rfl⟩ := commented
    obtain ⟨length, closed, rfl⟩ := Attempt.map_eq_ok_iff.mp done
    have within := Nat.le_of_add_le_add_right within
    have again := comment_length_append closed within latter (place + 3)
    exact .inl (by simp [blank, again, Except.map])
  have bare (inner : List Char) : rest ≠ ['(', '?', '#'] ++ inner :=
    fun same => commented ⟨inner, same⟩
  have formerBare := not_begin_append bare replaces.former_apart
  have latterBare := not_begin_append bare replaces.apart
  cases rest with
  | nil =>
    obtain rfl : taken = 0 := Nat.le_zero.mp within
    obtain ⟨sign, more, rfl⟩ := List.exists_cons_of_ne_nil replaces.filled
    have visible : sign ≠ '#' := fun hash => replaces.apart sign rfl (by simp [hash])
    rw [List.nil_append, blank_of_uncommented latterBare visible]
    rcases replaces.same with rfl | same
    · by_cases skips : modes.skipBlanks
      · exact .inr ⟨rfl, skips, rfl⟩
      · exact .inl (by simp [skips])
    · obtain ⟨other, rfl⟩ : ∃ other, former = sign :: other := List.head?_eq_some_iff.mp same
      rw [List.nil_append, blank_of_uncommented formerBare visible] at done
      exact .inl done
  | cons first others =>
    by_cases hash : first = '#'
    · subst hash
      exact line_comment_append latter place done within
    · rw [List.cons_append] at done formerBare latterBare ⊢
      rw [blank_of_uncommented formerBare hash] at done
      rw [blank_of_uncommented latterBare hash]
      exact .inl done

/-- If nothing is to be skipped at the begin, nothing is skipped. -/
theorem blanks_of_visible (visible : blank modes position rest = .ok 0) :
    blanks modes position rest = .ok 0 := by
  cases rest with
  | nil => rw [blanks]
  | cons first others => rw [blanks, visible]

/-- If nothing is skipped, there is nothing to be skipped at the begin. -/
theorem visible_of_blanks (done : blanks modes position rest = .ok 0) :
    blank modes position rest = .ok 0 := by
  cases rest with
  | nil => rfl
  | cons first others =>
    rw [blanks] at done
    split at done
    · cases done
    · assumption
    · obtain ⟨further, _, counted⟩ := Attempt.map_eq_ok_iff.mp done
      omega

theorem blanks_le (done : blanks modes position rest = .ok taken) : taken ≤ rest.length := by
  induction position, rest using blanks.induct modes generalizing taken with
  | case1 position =>
    rw [blanks] at done
    cases done
    exact Nat.le_refl _
  | case2 position first others problem failed =>
    rw [blanks, failed] at done
    cases done
  | case3 position first others visible =>
    rw [blanks, visible] at done
    cases done
    exact Nat.zero_le _
  | case4 position first others count skipped _ =>
    rename_i induction
    rw [blanks, skipped] at done
    obtain ⟨further, onward, rfl⟩ := Attempt.map_eq_ok_iff.mp done
    have fewer := induction onward
    have short := blank_le skipped
    rw [List.length_drop] at fewer
    rw [List.length_cons] at short ⊢
    omega

/-- The same blanks and comments are skipped where the text goes on otherwise, unless they reach
the end of the text.

Proof: induction over the length of the text that is the same. -/
theorem blanks_append (replaces : Replaces former latter)
    (done : blanks modes position (rest ++ former) = .ok taken) (within : taken ≤ rest.length)
    (place : Nat) :
    blanks modes place (rest ++ latter) = .ok taken ∨
      former = [] ∧ modes.skipBlanks ∧ taken = rest.length := by
  generalize counted : rest.length = length
  induction length using Nat.strongRecOn generalizing rest position place taken with
  | ind length induction =>
  subst counted
  cases rest with
  | nil =>
    obtain rfl : taken = 0 := Nat.le_zero.mp within
    exact (blank_append replaces (visible_of_blanks done) within place).imp_left blanks_of_visible
  | cons first others =>
    rw [List.cons_append, blanks] at done
    split at done
    · cases done
    · rename_i visible
      cases done
      exact (blank_append replaces visible within place).imp_left blanks_of_visible
    · rename_i count skipped
      obtain ⟨further, onward, rfl⟩ := Attempt.map_eq_ok_iff.mp done
      rw [← List.cons_append] at skipped
      rw [List.length_cons] at within ⊢ induction
      have short : count ≤ others.length := by omega
      have begun : count + 1 ≤ (first :: others).length := Nat.succ_le_succ short
      rw [List.drop_append_of_le_length short] at onward
      rcases blank_append replaces skipped begun place with same | ⟨ended, skips, whole⟩
      · have shorter : (others.drop count).length < others.length + 1 := by
          rw [List.length_drop]
          omega
        have again := induction _ shorter onward (by rw [List.length_drop]; omega)
          (place + byteLength ((first :: (others ++ latter)).take (count + 1))) rfl
        rw [List.length_drop] at again
        rw [List.cons_append] at same ⊢
        rcases again with again | ⟨ended, skips, _⟩
        · left
          rw [blanks, same]
          simp only [List.drop_append_of_le_length short, again]
          rfl
        · exact .inr ⟨ended, skips, by omega⟩
      · rw [List.length_cons] at whole
        exact .inr ⟨ended, skips, by omega⟩

theorem blank_in_front (apart : Apart sign) (done : blank modes position rest = .ok taken)
    (more : List Char) (place : Nat) :
    blank modes place (rest ++ sign :: more) = .ok taken ∨
      modes.skipBlanks ∧ taken = rest.length := by
  rw [← List.append_nil rest] at done
  exact (blank_append (.of_end apart more) done (by simpa using blank_le done) place).imp_right
    And.right

theorem blanks_in_front (apart : Apart sign) (done : blanks modes position rest = .ok taken)
    (more : List Char) (place : Nat) :
    blanks modes place (rest ++ sign :: more) = .ok taken ∨
      modes.skipBlanks ∧ taken = rest.length := by
  rw [← List.append_nil rest] at done
  exact (blanks_append (.of_end apart more) done (by simpa using blanks_le done) place).imp_right
    And.right

/-- The least bound that the text begins with; without one in front of a comma it is zero. -/
def leastBound? (rest : List Char) : Option (Nat × Nat) :=
  if rest.head? = some ',' then some (0, 0) else Escape.decimal? rest

/-- The greatest bound that the text begins with, if there is one, and its length. -/
def mostBound (rest : List Char) : Option Nat × Nat :=
  match Escape.decimal? rest with
  | some (number, length) => (some number, length)
  | none => (none, 0)

/-- What stands where in a text from which the bounds of a repetition are read. -/
inductive BoundsAt (modes : Modes) (rest : List Char) : Nat × Option Nat → Nat → Prop where
  | exactly {before least length between : Nat} (begun : blanks modes 0 rest = .ok before)
      (bounded : leastBound? (rest.drop before) = some (least, length))
      (behind : blanks modes 0 (rest.drop (before + length)) = .ok between)
      (closed : (rest.drop (before + length + between)).head? = some '\x7d') :
      BoundsAt modes rest (least, some least) (before + length + between + 1)
  | between {before least length between gap last : Nat} {most : Option Nat × Nat}
      (begun : blanks modes 0 rest = .ok before)
      (bounded : leastBound? (rest.drop before) = some (least, length))
      (behind : blanks modes 0 (rest.drop (before + length)) = .ok between)
      (comma : (rest.drop (before + length + between)).head? = some ',')
      (onward : blanks modes 0 (rest.drop (before + length + between + 1)) = .ok gap)
      (limited : mostBound (rest.drop (before + length + between + 1 + gap)) = most)
      (ended : blanks modes 0 (rest.drop (before + length + between + 1 + gap + most.2)) = .ok last)
      (closed : (rest.drop (before + length + between + 1 + gap + most.2 + last)).head? =
        some '\x7d') :
      BoundsAt modes rest (least, most.1) (before + length + between + 1 + gap + most.2 + last + 1)

/-- Bounds are read where they stand.

Proof: the reader is followed from step to step. What it looks for first, a bound or the comma that
stands for none, is told by `leastBound?`. -/
theorem bounds_eq_some_iff {bounds : Nat × Option Nat} :
    bounds? modes rest = some (bounds, taken) ↔ BoundsAt modes rest bounds taken := by
  have successes {attempt : Except Problem Nat} {value : Nat} :
      attempt.toOption = some value ↔ attempt = .ok value := by
    cases attempt <;> simp [Except.toOption]
  have least_bound {ahead : List Char} {onward : Nat × Nat → Option ((Nat × Option Nat) × Nat)} :
      (if ahead.head? = some ',' then (some (0, 0)).bind onward
        else (Escape.decimal? ahead).bind onward) = (leastBound? ahead).bind onward := by
    rw [leastBound?]
    split <;> rfl
  have behindComma {count : Nat} {behind : List Char} (ahead : rest.drop count = ',' :: behind) :
      behind = rest.drop (count + 1) := by
    rw [← List.drop_drop, ahead, List.drop_succ_cons, List.drop_zero]
  rw [bounds?]
  simp only [Option.bind_eq_bind, least_bound, Option.bind_eq_some_iff, successes, List.drop_drop]
  constructor
  · intro found
    obtain ⟨before, begun, ⟨least, length⟩, bounded, between, behind, found⟩ := found
    split at found
    · rename_i ahead
      cases found
      exact .exactly begun bounded behind (by rw [ahead]; rfl)
    · rename_i ahead
      obtain rfl := behindComma ahead
      simp only [Option.bind_eq_some_iff, successes, Option.ite_none_right_eq_some,
        List.drop_drop, ← Nat.add_assoc] at found
      obtain ⟨gap, onward, last, ended, closed, found⟩ := found
      cases found
      exact .between begun bounded behind (by rw [ahead]; rfl) onward rfl ended closed
    · cases found
  · intro places
    cases places with
    | exactly begun bounded behind closed =>
      refine ⟨_, begun, _, bounded, _, behind, ?_⟩
      obtain ⟨further, ahead⟩ := List.head?_eq_some_iff.mp closed
      simp only [ahead]
    | between begun bounded behind comma onward limited ended closed =>
      refine ⟨_, begun, _, bounded, _, behind, ?_⟩
      obtain ⟨further, ahead⟩ := List.head?_eq_some_iff.mp comma
      obtain rfl := behindComma ahead
      subst limited
      simp only [ahead, Option.bind_eq_some_iff, successes, List.drop_drop, ← Nat.add_assoc]
      exact ⟨_, onward, _, ended, if_pos closed⟩

namespace BoundsAt

variable {inner behind : List Char} {bounds : Nat × Option Nat}

/-- The bounds of a repetition end with a closing brace. -/
theorem exists_brace (places : BoundsAt modes rest bounds taken) :
    ∃ inner behind, rest = inner ++ '\x7d' :: behind ∧ taken = inner.length + 1 := by
  have split {count : Nat} (closed : (rest.drop count).head? = some '\x7d') :
      ∃ inner behind, rest = inner ++ '\x7d' :: behind ∧ count + 1 = inner.length + 1 := by
    obtain ⟨behind, ahead⟩ := List.head?_eq_some_iff.mp closed
    have short : count < rest.length := by
      by_contra long
      rw [List.drop_eq_nil_of_le (by omega)] at ahead
      cases ahead
    refine ⟨rest.take count, behind, by rw [← ahead, List.take_append_drop], ?_⟩
    rw [List.length_take, Nat.min_eq_left (by omega)]
  cases places with
  | exactly _ _ _ closed => exact split closed
  | between _ _ _ _ _ _ _ closed => exact split closed

/-- What follows the closing brace does not matter. -/
theorem append (places : BoundsAt modes (inner ++ '\x7d' :: behind) bounds (inner.length + 1))
    (other : List Char) : BoundsAt modes (inner ++ '\x7d' :: other) bounds (inner.length + 1) := by
  have replaces : Replaces ('\x7d' :: behind) ('\x7d' :: other) :=
    ⟨List.cons_ne_nil _ _, by simp, .inr rfl⟩
  have brace : Escape.isDigit '\x7d' = false := by decide
  have dropped {count : Nat} (within : count ≤ inner.length) (more : List Char) :
      (inner ++ '\x7d' :: more).drop count = inner.drop count ++ '\x7d' :: more :=
    List.drop_append_of_le_length within
  have head {count : Nat} (within : count ≤ inner.length) :
      ((inner ++ '\x7d' :: other).drop count).head? =
        ((inner ++ '\x7d' :: behind).drop count).head? := by
    rw [dropped within, dropped within]
    cases inner.drop count <;> rfl
  have number {count : Nat} (within : count ≤ inner.length) :
      Escape.decimal? ((inner ++ '\x7d' :: other).drop count) =
        Escape.decimal? ((inner ++ '\x7d' :: behind).drop count) := by
    rw [dropped within, dropped within, Escape.decimal_in_front brace,
      Escape.decimal_in_front brace]
  have least {count : Nat} (within : count ≤ inner.length) :
      leastBound? ((inner ++ '\x7d' :: other).drop count) =
        leastBound? ((inner ++ '\x7d' :: behind).drop count) := by
    rw [leastBound?, leastBound?, head within, number within]
  have most {count : Nat} (within : count ≤ inner.length) :
      mostBound ((inner ++ '\x7d' :: other).drop count) =
        mostBound ((inner ++ '\x7d' :: behind).drop count) := by
    rw [mostBound, mostBound, number within]
  have gap {count skipped : Nat}
      (done : blanks modes 0 ((inner ++ '\x7d' :: behind).drop count) = .ok skipped)
      (within : count + skipped ≤ inner.length) :
      blanks modes 0 ((inner ++ '\x7d' :: other).drop count) = .ok skipped := by
    rw [dropped (by omega)] at done ⊢
    rcases blanks_append replaces done (by rw [List.length_drop]; omega) 0 with same | ⟨ended, _⟩
    · exact same
    · cases ended
  generalize whole : inner.length + 1 = taken at places ⊢
  cases places with
  | exactly begun bounded ended closed =>
    exact .exactly (@gap 0 _ begun (by omega)) ((least (by omega)).trans bounded)
      (gap ended (by omega)) ((head (by omega)).trans closed)
  | between begun bounded ended comma onward limited last closed =>
    exact .between (@gap 0 _ begun (by omega)) ((least (by omega)).trans bounded)
      (gap ended (by omega)) ((head (by omega)).trans comma) (gap onward (by omega))
      ((most (by omega)).trans limited) (gap last (by omega)) ((head (by omega)).trans closed)

end BoundsAt

/-- Text without a closing brace makes no bounds of what stands in front of it. -/
theorem bounds_append {more : List Char} (unbraced : '\x7d' ∉ more) :
    bounds? modes (rest ++ more) = bounds? modes rest := by
  refine Option.ext fun ⟨bounds, taken⟩ => ?_
  rw [bounds_eq_some_iff, bounds_eq_some_iff]
  constructor
  · intro places
    obtain ⟨inner, behind, whole, rfl⟩ := places.exists_brace
    rw [whole] at places
    rcases List.append_eq_append_iff.mp whole.symm with ⟨middle, rfl, ahead⟩ | ⟨middle, rfl, rfl⟩
    · cases middle with
      | nil =>
        rw [List.nil_append] at ahead
        exact absurd (by simp [← ahead]) unbraced
      | cons brace others =>
        obtain ⟨rfl, rfl⟩ := List.cons.inj ahead
        exact places.append others
    · exact absurd (by simp) unbraced
  · intro places
    obtain ⟨inner, behind, rfl, rfl⟩ := places.exists_brace
    rw [List.append_assoc]
    exact places.append _

/-- An operator takes a character at least, and no more than there are. -/
theorem operator_bounds {bounds : Nat × Option Nat}
    (repeats : operator? modes rest = some (bounds, taken)) : 0 < taken ∧ taken ≤ rest.length := by
  unfold operator? at repeats
  split at repeats
  case h_1 | h_2 | h_3 =>
    cases repeats
    simp
  case h_4 =>
    obtain ⟨⟨_, length⟩, found, same⟩ := Option.map_eq_some_iff.mp repeats
    cases same
    obtain ⟨inner, behind, rfl, rfl⟩ := (bounds_eq_some_iff.mp found).exists_brace
    simp
  case h_5 => cases repeats

/-- Text without a closing brace makes no operator of what stands in front of it. -/
theorem operator_append {more : List Char} (unbraced : '\x7d' ∉ more) {first : Char}
    (others : List Char) :
    operator? modes (first :: others ++ more) = operator? modes (first :: others) := by
  rw [List.cons_append]
  by_cases braced : first = '\x7b'
  · subst braced
    rw [operator?, operator?, bounds_append unbraced]
  · unfold operator?
    split <;> split <;> simp_all

/-- One sign is taken where it stands. -/
theorem sign_le {count : Nat} (other : Char) (within : count ≤ rest.length) :
    count + (if (rest.drop count).head? = some other then 1 else 0) ≤ rest.length := by
  split
  · rename_i ahead
    rw [List.head?_drop] at ahead
    exact (List.getElem?_eq_some_iff.mp ahead).1
  · exact within

/-- The manner is told by what stands behind the blanks, which is the same in front of more. -/
theorem manner_of_blanks {gap place : Nat} {more : List Char} (apart : Apart sign)
    (alone : blanks modes position rest = .ok gap)
    (same : blanks modes place (rest ++ sign :: more) = .ok gap) :
    manner modes place (rest ++ sign :: more) = manner modes position rest := by
  have within := blanks_le alone
  rw [manner, manner, alone, same]
  simp only [bind, Except.bind, apart.drop_head_iff within '?' (by decide),
    apart.drop_head_iff (sign_le '?' within) '+' (by decide)]

/-- A manner takes no more than there is, and at the end of the text no more than the blanks. -/
theorem manner_le {kind : Bool × Bool} {gap : Nat} (alone : blanks modes position rest = .ok gap)
    (done : manner modes position rest = .ok (kind, taken)) :
    taken ≤ rest.length ∧ (gap = rest.length → taken = gap ∧ kind = (true, false)) := by
  have within := blanks_le alone
  have takes := sign_le '+' (sign_le '?' within)
  rw [manner, alone] at done
  cases done
  refine ⟨takes, ?_⟩
  rintro rfl
  simp

theorem manner_append {kind : Bool × Bool} (apart : Apart sign)
    (done : manner modes position rest = .ok (kind, taken)) (more : List Char) (place : Nat) :
    taken ≤ rest.length ∧ (manner modes place (rest ++ sign :: more) = .ok (kind, taken) ∨
      modes.skipBlanks ∧ taken = rest.length) := by
  obtain ⟨gap, skipped, _⟩ := Attempt.bind_eq_ok_iff.mp done
  obtain ⟨within, ending⟩ := manner_le skipped done
  refine ⟨within, ?_⟩
  rcases blanks_in_front apart skipped more place with same | ⟨skips, rfl⟩
  · exact .inl ((manner_of_blanks apart skipped same).trans done)
  · exact .inr ⟨skips, (ending rfl).1⟩

end Highlighter.Regex.Parser

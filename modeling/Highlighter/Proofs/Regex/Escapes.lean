import Highlighter.Proofs.Attempt
import Highlighter.Regex.Parser

/-!
# Escapes in front of more

What the reader takes of a pattern text is taken again where more text follows, unless what
follows belongs to it: a digit to a number, a letter to a name. Text that begins with a sign that
is `Apart`, a blank or a closing parenthesis, does not. The laws about the readers of escapes say
that they give the same and take the same number of characters there; where in a pattern the text
stands is told in problems only.
-/

namespace Highlighter.Regex

/-- The sign belongs to nothing that is begun in front of it. -/
def Apart (sign : Char) : Prop := sign = ' ' ∨ sign = ')'

variable {sign : Char} {rest : List Char} {taken : Nat}

namespace Apart

theorem ne (apart : Apart sign) {other : Char} (differs : other ≠ ' ' ∧ other ≠ ')') :
    sign ≠ other := by
  rintro rfl
  exact apart.elim differs.1 differs.2

theorem not_digit (apart : Apart sign) : Escape.isDigit sign = false := by
  rcases apart with rfl | rfl <;> decide

theorem not_name (apart : Apart sign) : Escape.isNameCharacter sign = false := by
  rcases apart with rfl | rfl <;> decide

/-- Whether a text begins with another sign does not depend on what it stands in front of. -/
theorem head_iff (apart : Apart sign) {other : Char} (differs : other ≠ ' ' ∧ other ≠ ')')
    (more : List Char) : (rest ++ sign :: more).head? = some other ↔ rest.head? = some other := by
  cases rest with
  | nil => simp [apart.ne differs]
  | cons first others => rfl

/-- Nor does it within the text. -/
theorem drop_head_iff (apart : Apart sign) {count : Nat} (within : count ≤ rest.length)
    (other : Char) (differs : other ≠ ' ' ∧ other ≠ ')') (more : List Char) :
    ((rest ++ sign :: more).drop count).head? = some other ↔
      (rest.drop count).head? = some other := by
  rw [List.drop_append_of_le_length within]
  exact apart.head_iff differs more

end Apart

/-- Items of a kind are counted alike in front of an item of another kind. -/
theorem take_while_in_front {Item : Type} {kind : Item → Bool} {item : Item}
    (other : kind item = false) (rest more : List Item) :
    (rest ++ item :: more).takeWhile kind = rest.takeWhile kind := by
  rw [List.takeWhile_append]
  split
  · rename_i whole
    rw [List.takeWhile_cons_of_neg (by simp [other]), List.append_nil]
    exact ((List.takeWhile_prefix kind).eq_of_length whole).symm
  · rfl

/-- Characters of a kind are counted alike whatever follows, if another one is behind them. -/
theorem take_while_append {kind : Char → Bool} (other : (rest.takeWhile kind).length < rest.length)
    (more : List Char) : (rest ++ more).takeWhile kind = rest.takeWhile kind := by
  rw [List.takeWhile_append, if_neg (Nat.ne_of_lt other)]

/-- What a text does not begin with it does not begin with either in front of a sign that does
not belong to it. -/
theorem not_begin_append {begun more : List Char} (away : ∀ others, rest ≠ begun ++ others)
    (apart : ∀ sign ∈ more.head?, sign ∉ begun) (others : List Char) :
    rest ++ more ≠ begun ++ others := by
  intro same
  rcases List.append_eq_append_iff.mp same with ⟨middle, rfl, rfl⟩ | ⟨middle, rfl, _⟩
  · cases middle with
    | nil => exact away [] (by simp)
    | cons sign further => exact apart sign rfl (by simp)
  · exact away middle rfl

namespace Escape

theorem decimal_in_front (other : isDigit sign = false) (rest more : List Char) :
    decimal? (rest ++ sign :: more) = decimal? rest := by
  rw [decimal?, decimal?, take_while_in_front other]

theorem decimal_le {number : Nat} (found : decimal? rest = some (number, taken)) :
    taken ≤ rest.length := by
  simp only [decimal?, Option.ite_none_left_eq_some, Option.some.injEq, Prod.mk.injEq] at found
  rw [← found.2.2]
  exact (List.takeWhile_prefix isDigit).length_le

theorem delimited_append {opening closing : List Char} {name : String}
    (other : isNameCharacter sign = false)
    (found : delimited? opening closing rest = some (name, taken)) (more : List Char) :
    taken ≤ rest.length ∧
      delimited? opening closing (rest ++ sign :: more) = some (name, taken) := by
  simp only [delimited?, Option.ite_none_right_eq_some, Option.ite_none_left_eq_some,
    Option.some.injEq, Prod.mk.injEq, Bool.or_eq_true, not_or, Bool.not_eq_true,
    Bool.not_eq_eq_eq_not, Bool.not_true, Bool.not_eq_false] at found
  obtain ⟨opens, ⟨named, closes⟩, same, counted⟩ := found
  have begun := (List.isPrefixOf_iff_prefix.mp opens).length_le
  have letters := (List.takeWhile_prefix (l := rest.drop opening.length) isNameCharacter).length_le
  have ended := (List.isPrefixOf_iff_prefix.mp closes).length_le
  rw [List.length_drop] at letters ended
  have begins {begun text : List Char} (alone : begun.isPrefixOf text) (more : List Char) :
      begun.isPrefixOf (text ++ more) := by
    rw [List.isPrefixOf_iff_prefix] at alone ⊢
    exact alone.trans (List.prefix_append _ _)
  have within : (rest ++ sign :: more).drop opening.length =
      rest.drop opening.length ++ sign :: more := List.drop_append_of_le_length begun
  refine ⟨by omega, ?_⟩
  rw [delimited?, if_pos (begins opens _)]
  simp only [within, take_while_in_front other]
  rw [List.drop_append_of_le_length (by omega), begins closes, named]
  simp [same, counted]

theorem hex_digits_append {count : Nat} {digits : List Char}
    (found : hexDigits? count rest = some (digits, taken)) (more : List Char) :
    taken ≤ rest.length ∧ hexDigits? count (rest ++ more) = some (digits, taken) := by
  simp only [hexDigits?.eq_def] at found ⊢
  split at found
  · rename_i plain
    obtain ⟨whole, hex⟩ := plain
    have enough : count ≤ rest.length := by
      rw [List.length_take] at whole
      omega
    cases found
    refine ⟨enough, ?_⟩
    simp only [List.take_append_of_le_length enough]
    rw [if_pos ⟨whole, hex⟩]
  · rename_i short
    split at found
    · rename_i inner
      simp only [Option.ite_none_left_eq_some, Option.ite_none_right_eq_some, Option.some.injEq,
        Prod.mk.injEq] at found
      obtain ⟨few, closes, rfl, rfl⟩ := found
      have closed : (inner.takeWhile isHexDigit).length < inner.length := by
        by_contra reached
        rw [List.drop_eq_nil_of_le (by omega)] at closes
        cases closes
      have counted : count ≠ 0 := fun none => short (by simp [none])
      have braced : ¬ ((('\x7b' :: inner ++ more).take count).length = count ∧
          (('\x7b' :: inner ++ more).take count).all isHexDigit) := by
        obtain ⟨fewer, rfl⟩ := Nat.exists_eq_succ_of_ne_zero counted
        have apart : isHexDigit '\x7b' = false := by decide
        simp [apart]
      refine ⟨by simp only [List.length_cons]; omega, ?_⟩
      obtain ⟨further, ahead⟩ := List.head?_eq_some_iff.mp closes
      rw [if_neg braced]
      simp only [List.cons_append, take_while_append closed]
      rw [if_neg few, List.drop_append_of_le_length (by omega), ahead]
      rfl
    · cases found

theorem hexadecimal_append {count position : Nat} {meaning : Meaning}
    (done : hexadecimal count position rest = .ok (meaning, taken)) (more : List Char)
    (place : Nat) :
    taken ≤ rest.length ∧ hexadecimal count place (rest ++ more) = .ok (meaning, taken) := by
  rw [hexadecimal] at done
  cases found : hexDigits? count rest with
  | none => simp [found] at done
  | some pair =>
    obtain ⟨digits, length⟩ := pair
    obtain ⟨short, same⟩ := hex_digits_append found more
    rw [found] at done
    rw [hexadecimal, same]
    cases known : character? (value 16 digits) with
    | none => simp [known] at done
    | some character =>
      simp only [known, Except.ok.injEq, Prod.mk.injEq] at done ⊢
      exact ⟨done.2 ▸ short, done⟩

theorem property_append {caseInsensitive negated : Bool} {position : Nat} {first : Char}
    {meaning : Meaning}
    (done : property caseInsensitive negated position first rest = .ok (meaning, taken))
    (more : List Char) (place : Nat) :
    taken ≤ rest.length + 2 ∧
      property caseInsensitive negated place first (rest ++ more) = .ok (meaning, taken) := by
  rw [property] at done ⊢
  by_cases opened : first = '\x7b'
  · rw [if_pos opened, braced?] at done ⊢
    by_cases closed : (rest.takeWhile (· ≠ '\x7d')).length < rest.length
    · have further : (rest.takeWhile (· ≠ '\x7d')).length < (rest ++ more).length := by
        rw [List.length_append]
        omega
      simp only [closed, further, if_true, take_while_append closed, Except.ok.injEq,
        Prod.mk.injEq] at done ⊢
      exact ⟨by omega, done⟩
    · simp only [closed, if_false, reduceCtorEq] at done
  · rw [if_neg opened] at done ⊢
    cases done
    exact ⟨by omega, rfl⟩

/-- A letter or sign that is meant on its own takes one character. -/
theorem plain_eq_ok {inBrackets : Bool} {unknown : Problem} {meant : Option Assertion}
    {letter : Char} {meaning : Meaning}
    (done : read.plain inBrackets unknown meant letter = .ok (meaning, taken)) (other : Problem) :
    taken = 1 ∧ read.plain inBrackets other meant letter = .ok (meaning, taken) := by
  unfold read.plain at done ⊢
  repeat' split at done
  all_goals simp_all

/-- An escape stands for the same in front of a sign that is apart. -/
theorem read_append (apart : Apart sign) {caseInsensitive inBrackets : Bool} {position : Nat}
    {meaning : Meaning}
    (done : read caseInsensitive inBrackets position rest = .ok (meaning, taken))
    (more : List Char) (place : Nat) :
    taken ≤ rest.length ∧
      read caseInsensitive inBrackets place (rest ++ sign :: more) = .ok (meaning, taken) := by
  cases rest with
  | nil => cases done
  | cons letter further =>
    let unknown : Problem := .malformed place (.unknownEscape (String.ofList ['\\', letter]))
    rw [List.cons_append]
    simp only [read] at done ⊢
    split at done
    · rename_i digit
      rw [if_pos digit, ← List.cons_append, decimal_in_front apart.not_digit]
      cases found : decimal? (letter :: further) with
      | none => simp [found] at done
      | some pair =>
        obtain ⟨group, length⟩ := pair
        simp only [found, Except.ok.injEq, Prod.mk.injEq] at done ⊢
        exact ⟨done.2 ▸ decimal_le found, done⟩
    rename_i digit
    rw [if_neg digit]
    split at done
    · rename_i named
      have same : (further ++ sign :: more).head? = further.head? := by
        cases further with
        | nil => simp [delimited?] at done
        | cons first others => rfl
      rw [if_pos named, same]
      split at done
      · rename_i name length found
        obtain ⟨short, again⟩ := delimited_append apart.not_name found more
        simp only [again, Except.ok.injEq, Prod.mk.injEq] at done ⊢
        exact ⟨by rw [List.length_cons]; omega, done⟩
      · cases done
    rename_i unnamed
    rw [if_neg unnamed]
    split at done
    · rename_i count _
      obtain ⟨⟨meant, length⟩, found, same⟩ := Attempt.map_eq_ok_iff.mp done
      obtain ⟨short, again⟩ := hexadecimal_append found (sign :: more) (place + 1 + letter.utf8Size)
      cases same
      rw [again]
      exact ⟨by rw [List.length_cons]; omega, rfl⟩
    · cases done
      exact ⟨by simp, rfl⟩
    · cases further with
      | nil =>
        -- At the end of the text the letter of a property would be unknown.
        have unlettered : ¬ (letter = 'p' ∨ letter = 'P') := by
          rintro (rfl | rfl) <;> cases inBrackets <;>
            simp [read.plain, conditionOf?, controlOf?, isUnknown, plainInBrackets] at done
        obtain ⟨rfl, again⟩ := plain_eq_ok done unknown
        have unbraced : sign ≠ '\x7b' := apart.ne (by decide)
        simp only [List.nil_append, if_neg unlettered, unbraced, and_false, if_false]
        exact ⟨by simp, again⟩
      | cons first behind =>
        simp only [List.cons_append] at done ⊢
        generalize (if inBrackets then none else conditionOf? letter) = meant at done ⊢
        split at done
        · rename_i lettered
          rw [if_pos lettered]
          exact property_append done (sign :: more) place
        rename_i unlettered
        rw [if_neg unlettered]
        split at done
        · cases done
        · rename_i unclosed
          obtain ⟨rfl, again⟩ := plain_eq_ok done unknown
          rw [if_neg unclosed]
          exact ⟨by simp, again⟩

end Escape

end Highlighter.Regex

import Highlighter.Proofs.Regex.Prefixes
import Highlighter.Regex.Shape

/-!
# References by number

The reader refuses the number of a reference that is too large for the length of the text, and the
check of the references that comes later refuses one that no group before it bears. In a text that
passes the check, the former never happens: a group takes two characters at least, and so does a
reference, so the numbers of all groups are small enough. Hence a text that is read with a larger
bound and passes the check is read with the smaller one as well, see `Reading.bounded`.

Proof: two `marks` are counted for each group and each reference. A turn of the reader adds no more
marks than it takes characters, if the parenthesis that is yet to come for each open one is counted
with it.
-/

namespace Highlighter.Regex

namespace Expr

/-- Two for each capture group and two for each reference. -/
def marks : Expr → Nat
  | empty | assertion _ | one _ => 0
  | reference _ => 2
  | sequence first second | either first second => first.marks + second.marks
  | repetition body _ _ _ | group body | look _ _ body | atomic body => body.marks
  | capture _ body => body.marks + 2

theorem marks_sequences (parts : List Expr) : (sequences parts).marks = (parts.map marks).sum := by
  induction parts with
  | nil => rfl
  | cons part others induction =>
    cases others with
    | nil => simp [sequences]
    | cons next further => simpa [sequences, marks] using induction

theorem marks_alternatives (options : List Expr) :
    (alternatives options).marks = (options.map marks).sum := by
  induction options with
  | nil => rfl
  | cons option others induction =>
    cases others with
    | nil => simp [alternatives]
    | cons next further => simpa [alternatives, marks] using induction

theorem references_sequences (parts : List Expr) :
    (sequences parts).references = parts.flatMap references := by
  induction parts with
  | nil => rfl
  | cons part others induction =>
    cases others with
    | nil => simp [sequences]
    | cons next further => simpa [sequences, references] using induction

theorem references_alternatives (options : List Expr) :
    (alternatives options).references = options.flatMap references := by
  induction options with
  | nil => rfl
  | cons option others induction =>
    cases others with
    | nil => simp [alternatives]
    | cons next further => simpa [alternatives, references] using induction

theorem marks_grouped (expression : Expr) : expression.grouped.marks = expression.marks := by
  cases expression <;> rfl

theorem references_grouped (expression : Expr) :
    expression.grouped.references = expression.references := by
  cases expression <;> rfl

/-- The groups are counted by the marks that are not those of references. -/
theorem marks_of_checked {expression : Expr} {begun count : Nat}
    (checked : expression.checkedGroups begun = some count) :
    2 * count + 2 * expression.references.length = 2 * begun + expression.marks := by
  induction expression generalizing begun count with
  | empty | assertion | one =>
    cases checked
    rfl
  | reference number =>
    obtain ⟨_, same⟩ := Option.ite_none_right_eq_some.mp checked
    cases same
    rfl
  | sequence first second former latter | either first second former latter =>
    obtain ⟨middle, before, behind⟩ := Option.bind_eq_some_iff.mp checked
    have begins := former before
    have ends := latter behind
    simp only [references, marks, List.length_append]
    omega
  | repetition body _ _ _ induction | group body induction | look _ _ body induction
  | atomic body induction => exact induction checked
  | capture _ body induction =>
    have inside := induction checked
    simp only [references, marks]
    omega

/-- Every reference is to a group that begins before the end. -/
theorem le_of_checked {expression : Expr} {begun count : Nat}
    (checked : expression.checkedGroups begun = some count) :
    begun ≤ count ∧ ∀ number ∈ expression.references, number ≤ count := by
  induction expression generalizing begun count with
  | empty | assertion | one =>
    cases checked
    exact ⟨Nat.le_refl _, nofun⟩
  | reference number =>
    obtain ⟨known, same⟩ := Option.ite_none_right_eq_some.mp checked
    cases same
    exact ⟨Nat.le_refl _, fun _ same => List.mem_singleton.mp same ▸ known.2⟩
  | sequence first second former latter | either first second former latter =>
    obtain ⟨middle, before, behind⟩ := Option.bind_eq_some_iff.mp checked
    obtain ⟨begins, inFirst⟩ := former before
    obtain ⟨ends, inSecond⟩ := latter behind
    refine ⟨Nat.le_trans begins ends, fun number among => ?_⟩
    rcases List.mem_append.mp among with among | among
    · exact Nat.le_trans (inFirst number among) ends
    · exact inSecond number among
  | repetition body _ _ _ induction | group body induction | look _ _ body induction
  | atomic body induction => exact induction checked
  | capture _ body induction =>
    obtain ⟨inside, numbers⟩ := induction checked
    exact ⟨by omega, numbers⟩

/-- The number of a reference is small, compared with the marks. -/
theorem number_lt_marks {expression : Expr} (checked : (expression.checkedGroups 0).isSome)
    {number : Nat} (among : number ∈ expression.references) :
    2 * number + 2 ≤ expression.marks := by
  obtain ⟨count, checked⟩ := Option.isSome_iff_exists.mp checked
  have counted := marks_of_checked checked
  have small := (le_of_checked checked).2 number among
  have filled := List.length_pos_of_mem among
  omega

end Expr

/-- An escape takes a character at least. -/
theorem Escape.taken_pos {caseInsensitive inBrackets : Bool} {position taken : Nat}
    {rest : List Char} {meaning : Escape.Meaning}
    (done : Escape.read caseInsensitive inBrackets position rest = .ok (meaning, taken)) :
    0 < taken := by
  cases rest with
  | nil => cases done
  | cons letter further =>
    simp only [Escape.read] at done
    generalize (if inBrackets then none else Escape.conditionOf? letter) = meant at done
    split at done
    · rename_i digit
      split at done
      · rename_i found
        cases done
        simp only [Escape.decimal?, Option.ite_none_left_eq_some, Option.some.injEq,
          Prod.mk.injEq] at found
        rw [← found.2.2, List.takeWhile_cons_of_pos digit]
        exact Nat.succ_pos _
      · cases done
    split at done
    · generalize (if further.head? = some '\'' then (['\''], ['\'']) else (['<'], ['>'])) =
        delimiters at done
      split at done
      · cases done
        exact Nat.succ_pos _
      · cases done
    split at done
    · obtain ⟨_, _, same⟩ := Attempt.map_eq_ok_iff.mp done
      cases same
      exact Nat.succ_pos _
    · cases done
      exact Nat.one_pos
    · cases further with
      | nil => exact (Escape.plain_eq_ok done (.exceeded .steps)).1 ▸ Nat.one_pos
      | cons next behind =>
        simp only at done
        split at done
        · rw [Escape.property] at done
          split at done
          · split at done
            · cases done
              exact Nat.succ_pos _
            · cases done
          · cases done
            exact Nat.two_pos
        · split at done
          · cases done
          · exact (Escape.plain_eq_ok done (.exceeded .steps)).1 ▸ Nat.one_pos

namespace Parser

open Text (byteLength)

variable {bound larger position taken : Nat} {first : Char} {rest others : List Char}
  {state next final : State}

/-- The marks of all that has been read of a level. -/
def Level.marks (level : Level) : Nat :=
  (level.finished.map Expr.marks).sum + (level.parts.map Expr.marks).sum

/-- The references in all that has been read of a level. -/
def Level.references (level : Level) : List Nat :=
  level.finished.flatMap Expr.references ++ level.parts.flatMap Expr.references

theorem Level.marks_add (level : Level) (part : Expr) :
    (level.add part).marks = level.marks + part.marks := by
  rw [add]
  split
  · rename_i nothing
    rw [nothing]
    rfl
  · simp only [marks, List.map_cons, List.sum_cons]
    omega

theorem Level.mem_references_add {level : Level} {part : Expr} {number : Nat} :
    number ∈ (level.add part).references ↔
      number ∈ level.references ∨ number ∈ part.references := by
  rw [add]
  split
  · rename_i nothing
    simp [nothing, Expr.references]
  · simp only [references, List.flatMap_cons, List.mem_append]
    tauto

theorem Level.marks_divide (level : Level) : level.divide.marks = level.marks := by
  simp only [marks, divide, List.map_cons, List.sum_cons, Expr.marks_sequences, List.map_reverse,
    List.sum_reverse, List.map_nil, List.sum_nil]
  omega

theorem Level.mem_references_divide {level : Level} {number : Nat} :
    number ∈ level.divide.references ↔ number ∈ level.references := by
  simp [references, divide, Expr.references_sequences, or_comm]

theorem Level.marks_expression (level : Level) : level.expression.marks = level.marks := by
  rw [← marks_divide]
  simp [expression, Expr.marks_alternatives, marks, divide, List.sum_reverse, Nat.add_comm]

theorem Level.mem_references_expression {level : Level} {number : Nat} :
    number ∈ level.expression.references ↔ number ∈ level.references := by
  rw [← mem_references_divide]
  simp [expression, Expr.references_alternatives, references, divide, or_comm]

/-- The marks of a group that is still open. -/
def Enclosure.marks : Enclosure → Nat
  | capture _ => 2
  | look _ _ | atomic | plain _ => 0

theorem Enclosure.marks_wrap (enclosure : Enclosure) (body : Expr) :
    (enclosure.wrap body).marks = body.marks + enclosure.marks := by
  cases enclosure <;> simp [wrap, Expr.marks, marks, Expr.marks_grouped]

theorem Enclosure.references_wrap (enclosure : Enclosure) (body : Expr) :
    (enclosure.wrap body).references = body.references := by
  cases enclosure <;> simp [wrap, Expr.references, Expr.references_grouped]

/-- The marks of all that has been read. -/
def State.marks (state : State) : Nat :=
  state.level.marks +
    (state.enclosing.map fun (enclosure, level) => enclosure.marks + level.marks).sum +
    (state.waiting.map Expr.marks).getD 0

/-- The references in all that has been read. -/
def State.references (state : State) : List Nat :=
  state.level.references ++ state.enclosing.flatMap (fun (_, level) => level.references) ++
    state.waiting.toList.flatMap Expr.references

/-- The reader comes from the one state to the other by no more than the given number of characters.
Each open parenthesis counts for the one that closes it. No reference is lost. -/
structure Grows (state next : State) (taken : Nat) : Prop where
  marks : next.marks + state.enclosing.length ≤ state.marks + next.enclosing.length + taken
  references : ∀ number ∈ state.references, number ∈ next.references

namespace Grows

theorem refl (state : State) : Grows state state 0 := ⟨Nat.le_refl _, fun _ among => among⟩

theorem trans {middle : State} {further : Nat} (former : Grows state middle taken)
    (latter : Grows middle next further) : Grows state next (taken + further) where
  marks := by
    have before := former.marks
    have behind := latter.marks
    omega
  references number among := latter.references number (former.references number among)

theorem mono {more : Nat} (grows : Grows state next taken) (fewer : taken ≤ more) :
    Grows state next more where
  marks := Nat.le_trans grows.marks (Nat.add_le_add_left fewer _)
  references := grows.references

/-- What is read waits, whatever becomes of the modes. -/
theorem of_wait (ready : state.waiting = none) {expression : Expr} {modes : Modes} {numbered : Bool}
    (few : expression.marks ≤ taken) :
    Grows state { state with modes, numbered, waiting := some expression } taken where
  marks := by
    simp only [State.marks, ready, Option.map_some, Option.getD_some, Option.map_none,
      Option.getD_none]
    omega
  references number among := by
    simp only [State.references, ready, Option.toList_none, List.flatMap_nil, List.append_nil] at among
    exact List.mem_append_left _ among

end Grows

theorem grows_settle (state : State) : Grows state (settle state) 0 := by
  unfold settle
  split
  · exact .refl state
  · rename_i part waits
    constructor
    · simp [State.marks, waits, Level.marks_add]
      omega
    · intro number among
      simp only [State.references, waits, Option.toList_some, List.flatMap_cons, List.flatMap_nil,
        List.append_nil, List.mem_append, Option.toList_none, Level.mem_references_add] at among ⊢
      tauto

theorem grows_repeated {expression : Expr} (waits : state.waiting = some expression)
    (bounds : Nat × Option Nat) (kind : Bool × Bool) :
    Grows state (state.repeated expression bounds kind) 0 := by
  obtain ⟨greedy, possessive⟩ := kind
  constructor
  · cases possessive <;> simp [State.marks, State.repeated, waits, Level.marks_add, Expr.marks] <;> omega
  · intro number among
    cases possessive <;>
      simp only [State.references, State.repeated, waits, Option.toList_some,
        List.flatMap_cons, List.flatMap_nil, List.append_nil, List.mem_append,
        Option.toList_none, Level.mem_references_add, Expr.references, if_true, if_false, Bool.false_eq_true] at among ⊢ <;> tauto

theorem grows_escape (ready : state.waiting = none)
    (done : escape bound state position rest = .ok (next, taken)) :
    Grows state next (taken + 1) := by
  obtain ⟨⟨meaning, length⟩, described, meant⟩ := Attempt.bind_eq_ok_iff.mp done
  have some := Escape.taken_pos described
  cases meaning with
  | character | set | condition =>
    cases meant
    exact .of_wait ready (Nat.zero_le _)
  | number group =>
    simp only at meant
    split at meant
    · cases meant
      exact .of_wait ready (Nat.succ_le_succ some)
    · cases meant
  | name name =>
    simp only at meant
    split at meant
    · cases meant
      exact .of_wait ready (Nat.succ_le_succ some)
    · cases meant

theorem grows_bracket (ready : state.waiting = none)
    (done : bracket bound state position rest = .ok (next, taken)) :
    Grows state next (taken + 1) := by
  obtain ⟨⟨items, length⟩, _, meant⟩ := Attempt.bind_eq_ok_iff.mp done
  cases meant
  exact .of_wait ready (Nat.zero_le _)

theorem grows_close (done : closeGroup state position = .ok next) (ready : state.waiting = none) :
    Grows state next 1 := by
  obtain ⟨_, _, closed⟩ := Attempt.bind_eq_ok_iff.mp done
  cases opened : state.enclosing with
  | nil =>
    rw [opened] at closed
    cases closed
  | cons innermost enclosing =>
    obtain ⟨enclosure, outer⟩ := innermost
    rw [opened] at closed
    cases closed
    constructor
    · simp only [State.marks, opened, ready, List.map_cons, List.sum_cons, Option.map_some,
        Option.getD_some, Option.map_none, Option.getD_none, Enclosure.marks_wrap,
        Level.marks_expression, List.length_cons]
      omega
    · intro number among
      simp only [State.references, opened, ready, List.flatMap_cons, List.mem_append,
        Option.toList_some, Option.toList_none, List.flatMap_nil, List.append_nil,
        Enclosure.references_wrap, Level.mem_references_expression] at among ⊢
      tauto

/-- A group that is opened has few marks as long as it is open. -/
theorem grows_inside {enclosure : Enclosure} (modes : Modes) (groups : Nat)
    (names : List (String × Nat)) :
    Grows state
      { state with
        modes, groups, names, level := {}, enclosing := (enclosure, state.level) :: state.enclosing }
      1 := by
  constructor
  · have few : enclosure.marks ≤ 2 := by cases enclosure <;> simp [Enclosure.marks]
    simp only [State.marks, List.map_cons, List.sum_cons, List.length_cons, Level.marks, List.map_nil,
      List.sum_nil]
    omega
  · intro number among
    simp only [State.references, List.flatMap_cons, List.mem_append] at among ⊢
    tauto

/-- A reference by name takes a character at least. -/
theorem reference_taken_pos {modes : Modes} {name : String}
    (begun : opening modes position rest = .ok (.reference name, taken)) : 0 < taken := by
  obtain ⟨gap, _, chosen⟩ := Attempt.bind_eq_ok_iff.mp begun
  simp only at chosen
  split at chosen
  case h_8 =>
    split at chosen
    · cases chosen
      omega
    · cases chosen
  case h_5 | h_6 | h_7 => split at chosen <;> cases chosen
  case h_10 =>
    obtain ⟨_, _, ended⟩ := Attempt.bind_eq_ok_iff.mp chosen
    cases ended
  all_goals cases chosen

theorem grows_open (ready : state.waiting = none)
    (done : openGroup state position rest = .ok (next, taken)) :
    Grows state next (taken + 1) := by
  by_cases deep : maximalDepth ≤ state.enclosing.length
  · rw [open_group_deep deep] at done
    cases done
  simp only [openGroup, deep, if_false, bind, Except.bind, pure, Except.pure] at done
  cases begun : opening state.modes (position + 1) rest with
  | error problem => simp [begun] at done
  | ok pair =>
    obtain ⟨opened, length⟩ := pair
    rw [begun] at done
    cases opened with
    | reference name =>
      simp only at done
      split at done
      · cases done
        exact .of_wait ready (Nat.succ_le_succ (reference_taken_pos begun))
      · split at done <;> cases done
    | modes modes encloses =>
      cases encloses with
      | false =>
        cases done
        exact .of_wait ready (Nat.zero_le _)
      | true =>
        cases done
        exact (grows_inside _ _ _).mono (Nat.succ_le_succ (Nat.zero_le _))
    | group enclosure captures name =>
      cases done
      exact (grows_inside _ _ _).mono (Nat.succ_le_succ (Nat.zero_le _))

/-- A part adds no more marks than it takes characters. -/
theorem grows_part (ready : state.waiting = none)
    (done : part bound state position first rest = .ok (next, taken)) :
    Grows state next (taken + 1) := by
  unfold part at done
  split at done
  case h_4 => exact grows_open ready done
  case h_5 =>
    obtain ⟨closed, closes, same⟩ := Attempt.map_eq_ok_iff.mp done
    cases same
    exact grows_close closes ready
  case h_6 =>
    cases done
    constructor
    · simp only [State.marks, Level.marks_divide]
      omega
    · intro number among
      simp only [State.references, List.mem_append, Level.mem_references_divide] at among ⊢
      exact among
  case h_7 => exact grows_escape ready done
  case h_8 => exact grows_bracket ready done
  case h_9 | h_10 | h_11 => cases done
  all_goals
    cases done
    exact .of_wait ready (Nat.zero_le _)

/-- What is read up to the end of a text adds no more marks than the text has characters. -/
theorem Reading.grows (reading : Reading bound final state position rest) :
    Grows state final rest.length := by
  induction reading with
  | ended settled => exact settled ▸ grows_settle _
  | skipped _ _ induction =>
    refine induction.mono ?_
    rw [List.length_cons, List.length_drop]
    omega
  | repeated _ waits _ _ _ _ induction =>
    refine ((grows_repeated waits _ _).trans induction).mono ?_
    rw [List.length_cons, List.length_drop]
    omega
  | unrepeated _ _ _ _ induction =>
    exact ((grows_settle _).trans induction).mono (Nat.le_of_eq (Nat.zero_add _))
  | part _ ready reads _ induction =>
    refine ((grows_part ready reads).trans induction).mono ?_
    have short := (part_append (.inl rfl) (Nat.le_refl _) reads [] [] 0).1
    rw [List.length_cons, List.length_drop]
    omega

/-- A text from which a state is read without problems is read so by the reader. -/
theorem Reading.read_eq (reading : Reading bound final state position rest) :
    read bound state position rest = .ok final := by
  induction reading with
  | ended settled checked closed =>
    subst settled
    rw [read, checked]
    simp [bind, Except.bind, closed, pure, Except.pure]
  | skipped skips _ induction =>
    rw [read_skipped skips]
    exact induction
  | repeated visible waits repeats repeatable manners _ induction =>
    rw [read_repeated visible waits repeats, if_pos repeatable, manners]
    exact induction
  | unrepeated visible waits unrepeated _ induction =>
    rw [read_unrepeated visible waits unrepeated]
    exact induction
  | part visible ready reads _ induction =>
    rw [read_part visible ready, reads]
    exact induction

/-- A bracket expression that is read holds no reference, so the bound does not matter. -/
theorem bracket_items_bounded {depth start count : Nat} {caseInsensitive : Bool}
    {items result : List Bracket.Item}
    (done : bracketItems larger caseInsensitive depth items position start rest =
      .ok (result, count)) :
    bracketItems bound caseInsensitive depth items position start rest = .ok (result, count) := by
  generalize counted : rest.length = length
  induction length using Nat.strongRecOn generalizing rest depth items position start with
  | ind length induction =>
  subst counted
  cases rest with
  | nil =>
    rw [bracketItems] at done
    cases done
  | cons first further =>
    have onward {depth start position length : Nat} {items : List Bracket.Item}
        (done : bracketItems larger caseInsensitive depth items position start
          (further.drop length) = .ok (result, count)) :
        bracketItems bound caseInsensitive depth items position start (further.drop length) =
          .ok (result, count) := by
      refine induction _ ?_ done rfl
      rw [List.length_cons, List.length_drop]
      omega
    by_cases escaped : first = '\\'
    · subst escaped
      rw [bracketItems] at done ⊢
      cases described : Escape.read caseInsensitive true position further with
      | error problem => simp [described] at done
      | ok pair =>
        obtain ⟨meaning, length⟩ := pair
        rw [described] at done
        cases meaning with
        | character _ _ | set _ => exact onward done
        | number group =>
          simp only at done
          split at done <;> cases done
        | condition _ | name _ => cases done
    by_cases closes : first = ']'
    · subst closes
      cases depth with
      | zero =>
        rw [bracketItems] at done ⊢
        exact done
      | succ depth =>
        rw [bracketItems] at done ⊢
        exact @onward _ _ _ 0 _ done
    · rw [bracketItems.eq_5 _ _ _ _ _ _ _ _ escaped closes] at done ⊢
      exact @onward _ _ _ 0 _ done

/-- A part is read with a smaller bound if no reference behind it is too large. -/
theorem part_bounded (done : part larger state position first rest = .ok (next, taken))
    (small : ∀ number ∈ next.references, number < bound) :
    part bound state position first rest = .ok (next, taken) := by
  unfold part at done ⊢
  split at done
  case h_7 =>
    obtain ⟨⟨meaning, length⟩, described, meant⟩ := Attempt.bind_eq_ok_iff.mp done
    rw [escape, described]
    cases meaning with
    | number group =>
      simp only [bind, Except.bind] at meant ⊢
      split at meant
      · cases meant
        have among : group ∈
            State.references { state with numbered := true, waiting := some (.reference group) } := by
          simp [State.references, Expr.references]
        rw [if_pos (small group among)]
        rfl
      · cases meant
    | _ => exact meant
  case h_8 =>
    obtain ⟨⟨items, length⟩, listed, meant⟩ := Attempt.bind_eq_ok_iff.mp done
    rw [bracket]
    simp only at listed ⊢
    rw [bracket_items_bounded listed]
    exact meant
  all_goals exact done

/-- A text that is read with a larger bound is read with a smaller one that all references keep. -/
theorem Reading.bounded (reading : Reading larger final state position rest)
    (small : ∀ number ∈ final.references, number < bound) :
    Reading bound final state position rest := by
  induction reading with
  | ended settled checked closed => exact .ended settled checked closed
  | skipped skips _ induction => exact .skipped skips induction
  | repeated visible waits repeats repeatable manners _ induction =>
    exact .repeated visible waits repeats repeatable manners induction
  | unrepeated visible waits unrepeated _ induction =>
    exact .unrepeated visible waits unrepeated induction
  | part visible ready reads onward induction =>
    exact .part visible ready
      (part_bounded reads fun number among => small number (onward.grows.references number among))
      induction

/-- A text whose references pass the check is read with any bound that its length admits. -/
theorem Reading.bounded_of_checked (reading : Reading larger final state position rest)
    (checked : (final.level.expression.checkedGroups 0).isSome)
    (short : state.marks + rest.length ≤ 2 * bound + 1 + state.enclosing.length) :
    Reading bound final state position rest := by
  obtain ⟨closed, ready, _⟩ := reading.closed_at_end
  have grown := reading.grows.marks
  have whole : final.marks = final.level.expression.marks := by
    simp [State.marks, closed, ready, Level.marks_expression]
  have same (number : Nat) : number ∈ final.references ↔
      number ∈ final.level.expression.references := by
    simp [State.references, closed, ready, Level.mem_references_expression]
  refine reading.bounded fun number among => ?_
  have small := Expr.number_lt_marks checked ((same number).mp among)
  rw [closed, List.length_nil] at grown
  omega

end Parser

end Highlighter.Regex

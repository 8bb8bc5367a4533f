import Highlighter.Regex.Parser
import Mathlib

/-!
# Reading words and groups

What the reader does with a long pattern is shown piece by piece: each law takes the begin
of a pattern text away and says in which state the reader goes on with the rest. Where the
text stands in the pattern does not matter, since places are used in problems only.

The laws are about patterns in which no mode is changed and no group has a name. They cover
letters, digits and underscores, an asterisk that may be missing, capture groups, and lists of
alternatives, which is what lists of keywords are made of.
-/

namespace Highlighter.Regex.Parser

open Text (byteLength)

variable {bound groups : Nat} {level outer : Level} {enclosing : List (Enclosure × Level)}
  {waiting : Option Expr} {text rest : List Char} {result : State}

/-- The reader comes from the state to the result, wherever in a pattern the text stands. -/
def Reads (bound : Nat) (state : State) (text : List Char) (result : State) : Prop :=
  ∀ position, read bound state position text = .ok result

/-- The text begins with a part of its own: neither with a comment nor with an operator that
repeats what stands before it. -/
structure Fresh (text : List Char) : Prop where
  unrepeated : operator? {} text = none
  visible : ∀ position, blank {} position text = .ok 0

/-- The level with what waits added to it. -/
def Level.behind (level : Level) (waiting : Option Expr) : Level := waiting.elim level level.add

/-- The level with some parts added to it. -/
def Level.extend (level : Level) (parts : List Expr) : Level :=
  { level with parts := parts.reverse ++ level.parts }

theorem settle_eq : settle { groups, level, enclosing, waiting } =
    { groups, level := level.behind waiting, enclosing } := by
  cases waiting <;> rfl

/-- What waits is added before a part of its own is read. -/
theorem Reads.of_behind (fresh : Fresh rest)
    (onward : Reads bound { groups, level := level.behind waiting, enclosing } rest result) :
    Reads bound { groups, level, enclosing, waiting } rest result := by
  intro position
  cases waiting with
  | none => exact onward position
  | some part =>
    rw [← onward position]
    cases rest with
    | nil => simp only [read, settle_eq, Level.behind, Option.elim]
    | cons first others =>
      conv => lhs; rw [read]
      simp only [fresh.visible, fresh.unrepeated, settle_eq]

/-- Reading a part takes its text away. -/
theorem Reads.of_part (taken : Nat) {first : Char} {others : List Char}
    (fresh : Fresh (first :: others)) {next : State}
    (begun : ∀ position, part bound { groups, level := level.behind waiting, enclosing } position
      first others = .ok (next, taken))
    (onward : Reads bound next (others.drop taken) result) :
    Reads bound { groups, level, enclosing, waiting } (first :: others) result := by
  refine Reads.of_behind fresh fun position => ?_
  rw [read]
  simp only [fresh.visible, begun]
  exact onward _

/-- A letter, a digit or an underscore is none of the signs that mean something in a pattern. -/
theorem not_sign_of_plain {letter : Char} (plain : Unicode.isAsciiWord letter) :
    letter ∉ ['.', '^', '$', '(', ')', '|', '\\', '[', '*', '+', '?', '\x7b', '#'] := by
  intro listed
  fin_cases listed <;> cases plain

/-- A letter, a digit or an underscore is neither an operator nor the begin of a comment. -/
theorem fresh_of_letter {letter : Char} (plain : Unicode.isAsciiWord letter)
    (others : List Char) : Fresh (letter :: others) := by
  have apart := not_sign_of_plain plain
  constructor
  · unfold operator?
    split <;> first | rfl | simp_all
  · intro position
    unfold blank
    split <;> simp_all

/-- A letter, a digit or an underscore waits to be repeated. -/
theorem Reads.of_letter {letter : Char} (plain : Unicode.isAsciiWord letter)
    (onward : Reads bound
      { groups, level := level.behind waiting, enclosing, waiting := some (.literal letter false) }
      rest result) :
    Reads bound { groups, level, enclosing, waiting } (letter :: rest) result := by
  have apart := not_sign_of_plain plain
  refine Reads.of_part 0 (fresh_of_letter plain rest) (fun position => ?_) onward
  unfold part
  split <;> simp_all

/-- An opening parenthesis is a part of its own, if a part of its own follows. -/
theorem fresh_of_open (fresh : Fresh rest) : Fresh ('(' :: rest) := by
  refine ⟨rfl, fun position => ?_⟩
  have unmarked (behind : List Char) : rest ≠ '?' :: behind := by
    rintro rfl
    cases fresh.unrepeated
  unfold blank
  split <;> simp_all

/-- An opening parenthesis opens a capture group, if a part of its own follows. -/
theorem Reads.of_open (shallow : enclosing.length < maximalDepth) (fresh : Fresh rest)
    (onward : Reads bound
      { groups := groups + 1
        enclosing := (.capture (groups + 1), level.behind waiting) :: enclosing } rest result) :
    Reads bound { groups, level, enclosing, waiting } ('(' :: rest) result := by
  have unmarked (behind : List Char) : rest ≠ '?' :: behind := by
    rintro rfl
    cases fresh.unrepeated
  have gap (position : Nat) : blanks {} position rest = .ok 0 := by
    cases rest with
    | nil => simp [blanks]
    | cons first others => simp [blanks, fresh.visible]
  have begun (position : Nat) : opening {} position rest =
      .ok (.group (fun _ number => .capture number) true none, 0) := by
    simp only [opening, gap, bind, Except.bind, List.drop_zero]
    split <;> simp_all
  refine Reads.of_part 0 (fresh_of_open fresh) (fun position => ?_) onward
  have fits : ¬ maximalDepth ≤ enclosing.length := Nat.not_le_of_lt shallow
  simp only [part, openGroup, fits, begun, bind, Except.bind, pure, Except.pure, ↓reduceIte]

/-- A closing parenthesis closes the innermost capture group. -/
theorem Reads.of_close {group : Nat}
    (onward : Reads bound
      { groups, level := outer, enclosing
        waiting := some (.capture group (level.behind waiting).expression) } rest result) :
    Reads bound { groups, level, enclosing := (.capture group, outer) :: enclosing, waiting }
      (')' :: rest) result := by
  refine Reads.of_part 0 ⟨rfl, fun position => rfl⟩ (fun position => ?_) onward
  simp [part, closeGroup, checkReferences, bind, Except.bind, pure, Except.pure, Except.map]
  rfl

/-- A bar ends an alternative. -/
theorem Reads.of_bar
    (onward : Reads bound { groups, level := (level.behind waiting).divide, enclosing } rest
      result) :
    Reads bound { groups, level, enclosing, waiting } ('|' :: rest) result :=
  Reads.of_part 0 ⟨rfl, fun _ => rfl⟩ (fun _ => rfl) onward

/-- At the end what waits is added. -/
theorem reads_end : Reads bound { groups, level, waiting } []
    { groups, level := level.behind waiting } := by
  intro position
  simp [read, settle_eq, checkReferences, bind, Except.bind, pure, Except.pure]

/-- The text is read as these parts, whatever stands before it, as long as a part of its own
follows. -/
structure Fragment (text : List Char) (parts : List Expr) : Prop where
  fresh : ∀ {rest : List Char}, Fresh rest → Fresh (text ++ rest)
  reads : ∀ {bound groups : Nat} {level : Level} {enclosing : List (Enclosure × Level)}
    {waiting : Option Expr} {rest : List Char} {result : State}, Fresh rest →
    Reads bound { groups, level := (level.behind waiting).extend parts, enclosing } rest result →
    Reads bound { groups, level, enclosing, waiting } (text ++ rest) result

/-- Each character of a word is a part. -/
theorem fragment_word {word : List Char} (letters : ∀ letter ∈ word, Unicode.isAsciiWord letter) :
    Fragment word (word.map fun letter => Expr.literal letter false) := by
  constructor
  · intro rest fresh
    cases word with
    | nil => exact fresh
    | cons letter others => exact fresh_of_letter (letters letter List.mem_cons_self) _
  · intro bound groups level enclosing waiting rest result fresh onward
    induction word generalizing level waiting with
    | nil => exact Reads.of_behind fresh onward
    | cons letter further induction =>
      refine Reads.of_letter (letters letter List.mem_cons_self)
        (induction (fun other listed => letters other (List.mem_cons_of_mem _ listed)) ?_)
      have same : ((level.behind waiting).behind (some (.literal letter false))).extend
            (further.map fun letter => Expr.literal letter false) =
          (level.behind waiting).extend
            ((letter :: further).map fun letter => Expr.literal letter false) := by
        simp [Level.behind, Level.extend, Level.add, Expr.literal]
      rw [same]
      exact onward

/-- An escaped asterisk with a question mark is a part that prefers the asterisk. -/
theorem fragment_optional_asterisk : Fragment ['\\', '*', '?']
    [.repetition (.literal '*' false) 0 (some 1) true] := by
  refine ⟨fun _ => ⟨rfl, fun position => rfl⟩, ?_⟩
  intro bound groups level enclosing waiting rest result fresh onward
  have plainly (position : Nat) : manner {} position rest = .ok ((true, false), 0) := by
    cases rest with
    | nil => simp [manner, blanks, bind, Except.bind, pure, Except.pure]
    | cons first others =>
      have gap : blanks {} position (first :: others) = .ok 0 := by
        simp [blanks, fresh.visible]
      have unmarked : first ≠ '?' ∧ first ≠ '+' := by
        constructor <;> rintro rfl <;> cases fresh.unrepeated
      simp [manner, gap, unmarked, bind, Except.bind, pure, Except.pure]
  refine Reads.of_part 1 ⟨rfl, fun position => rfl⟩ (fun position => rfl) fun position => ?_
  change read bound _ _ ('?' :: rest) = _
  rw [read]
  simp only [plainly, blank, operator?, Expr.literal, Expr.repeatable, List.drop_succ_cons,
    List.drop_zero]
  exact onward _

/-- Fragments may stand one behind the other. -/
theorem Fragment.append {former latter : List Char} {begun ended : List Expr}
    (first : Fragment former begun) (second : Fragment latter ended) :
    Fragment (former ++ latter) (begun ++ ended) := by
  constructor
  · intro rest fresh
    rw [List.append_assoc]
    exact first.fresh (second.fresh fresh)
  · intro bound groups level enclosing waiting rest result fresh onward
    rw [List.append_assoc]
    refine first.reads (second.fresh fresh) (second.reads fresh ?_)
    simpa [Level.behind, Level.extend] using onward

/-- A fragment in parentheses is a capture group. -/
theorem Reads.of_captured {parts : List Expr} (fragment : Fragment text parts)
    (shallow : enclosing.length < maximalDepth)
    (onward : Reads bound
      { groups := groups + 1, level := level.behind waiting, enclosing
        waiting := some (.capture (groups + 1) (.sequences parts)) } rest result) :
    Reads bound { groups, level, enclosing, waiting } ('(' :: (text ++ ')' :: rest)) result := by
  have closes : Fresh (')' :: rest) := ⟨rfl, fun position => rfl⟩
  refine Reads.of_open shallow (fragment.fresh closes) (fragment.reads closes (Reads.of_close ?_))
  simpa [Level.behind, Level.extend, Level.expression, Level.divide, Expr.alternatives]
    using onward

/-- Capture groups around the given parts, numbered from the next one on. -/
def captures (groups : Nat) : List (List Expr) → List Expr
  | [] => []
  | parts :: others => .capture (groups + 1) (.sequences parts) :: captures (groups + 1) others

/-- The text of alternatives, each in parentheses. -/
def alternativesText (texts : List (List Char)) : List Char :=
  ['|'].intercalate (texts.map fun text => '(' :: (text ++ [')']))

/-- Alternatives begin with a parenthesis, which is a part of its own. -/
theorem fresh_alternatives {words : List (List Char × List Expr)} (filled : words ≠ [])
    (fragments : ∀ word ∈ words, Fragment word.1 word.2) (rest : List Char) :
    Fresh (alternativesText (words.map Prod.fst) ++ rest) := by
  obtain ⟨word, others, rfl⟩ := List.exists_cons_of_ne_nil filled
  have closes (behind : List Char) : Fresh (')' :: behind) := ⟨rfl, fun position => rfl⟩
  have first := fragments word List.mem_cons_self
  cases others with
  | nil =>
    simpa [alternativesText] using fresh_of_open (first.fresh (closes rest))
  | cons next further =>
    simpa [alternativesText, List.intercalate] using fresh_of_open (first.fresh (closes _))

/-- Fragments in parentheses with bars between them are alternatives. -/
theorem Reads.of_alternatives {words : List (List Char × List Expr)} (filled : words ≠ [])
    (fragments : ∀ word ∈ words, Fragment word.1 word.2) {finished : List Expr}
    (shallow : enclosing.length + 1 < maximalDepth) {group : Nat}
    (onward : Reads bound
      { groups := groups + words.length, level := outer, enclosing
        waiting := some (.capture group
          (.alternatives (finished.reverse ++ captures groups (words.map Prod.snd)))) }
      rest result) :
    Reads bound
      { groups, level := ⟨finished, []⟩, enclosing := (.capture group, outer) :: enclosing }
      (alternativesText (words.map Prod.fst) ++ ')' :: rest) result := by
  induction words generalizing groups finished with
  | nil => exact absurd rfl filled
  | cons word others induction =>
    have fragment := fragments word List.mem_cons_self
    cases others with
    | nil =>
      have text : alternativesText ([word].map Prod.fst) ++ ')' :: rest =
          '(' :: (word.1 ++ ')' :: ')' :: rest) := by
        simp [alternativesText]
      rw [text]
      refine Reads.of_captured fragment shallow (Reads.of_close ?_)
      simpa [Level.behind, Level.add, Level.expression, Level.divide, captures, Expr.sequences] using onward
    | cons next further =>
      have text : alternativesText ((word :: next :: further).map Prod.fst) ++ ')' :: rest =
          '(' :: (word.1 ++ ')' :: '|' ::
            (alternativesText ((next :: further).map Prod.fst) ++ ')' :: rest)) := by
        simp [alternativesText, List.intercalate]
      rw [text]
      refine Reads.of_captured fragment shallow (Reads.of_bar ?_)
      refine induction (List.cons_ne_nil _ _)
        (fun other listed => fragments other (List.mem_cons_of_mem _ listed)) ?_
      simpa [Level.behind, Level.add, captures, Expr.sequences, Nat.add_assoc, Nat.add_comm] using onward

end Highlighter.Regex.Parser

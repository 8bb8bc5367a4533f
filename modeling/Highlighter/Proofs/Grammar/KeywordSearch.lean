import Highlighter.Proofs.Grammar.Pattern
import Highlighter.Proofs.Regex.Stack

/-!
# How keywords are searched for

A list of keywords becomes a program for the machine, because of the look at what follows. The
letters of a keyword are compared one by one, so no list is too large, and the only choices are
those between the keywords and whether an asterisk is there. A search therefore takes a fixed
number of steps back for each character, and three places of the stack at most, however long
the list, its words and the text are.
-/

namespace Highlighter

open Text (Cursor)
open Regex (Expr CharClass Code Spot)
open Regex.Compile (code settled matcher)
open Regex.Machine (beginning)
open Regex.Parser (captures)

variable {text : List Char} {words : List Keyword}

/-- The program of a keyword. -/
def keywordCode (word : Keyword) : Code :=
  .sequences ((word.letters.map fun letter => Code.one (.single letter)) ++
    if word.starred then [.repetition (.one (.single '*')) 0 (some 1) true] else [])

/-- The program of a list of keywords. -/
def keywordsCode (words : List Keyword) : Code :=
  .sequences [.condition .wordBoundary, .alternatives (words.map keywordCode),
    .look 0 false (.one keywordFollowers)]

/-! ### The program -/

/-- A letter is spelled out. It has one length and no choices. -/
theorem letter_plain (letter : Char) :
    (Expr.literal letter false).spelledOut ∧
      ((Expr.literal letter false).fixedLength && (Expr.literal letter false).plain []) := by
  constructor
  · change decide (letter = letter) = true
    exact decide_eq_true rfl
  · rfl

/-- The letters of a keyword are settled as they are spelled out. -/
theorem settled_letters (letters : List Char) :
    settled (letters.map fun letter => .literal letter false) =
      .ok (letters.map fun letter => .one (.single letter)) := by
  have spelled : (letters.map fun letter => Expr.literal letter false).all Expr.spelledOut := by
    simp [(letter_plain _).1]
  rw [settled, if_pos spelled, List.map_map]
  rfl

/-- The asterisk that may follow a keyword. -/
def asterisk : Expr := .repetition (.literal '*' false) 0 (some 1) true

theorem code_letter (letter : Char) :
    code [] true (.literal letter false) = .ok (.one (.single letter)) := by
  have whole := settled_letters [letter]
  rw [code.eq_def, if_neg (by simp)]
  change (settled [.literal letter false]).map Code.sequences = _
  rw [List.map_singleton] at whole
  rw [whole]
  rfl

theorem code_asterisk :
    code [] true asterisk = .ok (.repetition (.one (.single '*')) 0 (some 1) true) := by
  rw [asterisk, code.eq_def, if_neg (by simp)]
  simp only [Bool.true_or, code_letter]
  rfl

/-- The parts of a keyword are no sequences themselves. -/
theorem Keyword.parts_sequences (word : Keyword) (filled : word.parts ≠ []) :
    (Expr.sequences word.parts).parts = word.parts := by
  have each : ∀ part ∈ word.parts, part.parts = [part] := by
    intro part listed
    rcases List.mem_append.mp listed with letter | asterisk
    · obtain ⟨_, _, rfl⟩ := List.mem_map.mp letter
      rfl
    · split at asterisk
      · obtain rfl := List.mem_singleton.mp asterisk
        rfl
      · cases asterisk
  generalize word.parts = parts at filled each
  induction parts with
  | nil => exact absurd rfl filled
  | cons part others induction =>
    obtain ⟨first, rest⟩ := List.forall_mem_cons.mp each
    cases others with
    | nil => exact first
    | cons next further =>
      change part.parts ++ (Expr.sequences (next :: further)).parts = _
      rw [first, induction (List.cons_ne_nil _ _) rest]
      rfl

/-- All letters of a keyword are settled at its begin. What may follow them is tried. -/
theorem divide_keyword (word : Keyword) :
    Regex.Compile.divide [] true word.parts =
      (word.letters.map fun letter => .literal letter false,
        if word.starred then [asterisk] else [], []) := by
  have plain : ∀ part ∈ word.letters.map fun letter => Expr.literal letter false,
      (part.fixedLength && part.plain []) = true := by
    intro part listed
    obtain ⟨letter, _, rfl⟩ := List.mem_map.mp listed
    exact (letter_plain letter).2
  have stretches : (asterisk.fixedLength && asterisk.plain []) = false := rfl
  have leading : word.parts.takeWhile (fun part => part.fixedLength && part.plain []) =
      word.letters.map fun letter => .literal letter false := by
    rw [Keyword.parts, List.takeWhile_append_of_pos plain]
    cases word.starred
    · simp
    · change _ ++ [asterisk].takeWhile (fun part => part.fixedLength && part.plain []) = _
      rw [List.takeWhile_cons, stretches, if_neg Bool.false_ne_true, List.append_nil]
  rw [Regex.Compile.divide, leading, Keyword.parts, List.drop_left]
  cases word.starred
  · simp
  · rw [if_pos rfl]
    simp [asterisk, Expr.fixedLength]

/-- A keyword becomes its program. -/
theorem code_keyword {word : Keyword} (filled : word.letters ≠ []) :
    code [] true (.sequences word.parts) = .ok (keywordCode word) := by
  have some : word.parts ≠ [] := by simp [Keyword.parts, filled]
  have divided := divide_keyword word
  have parts := word.parts_sequences some
  have after : ∀ word : Keyword, (if word.starred then [asterisk] else []).mapM (code [] true) =
      .ok (if word.starred then [.repetition (.one (.single '*')) 0 (Option.some 1) true] else []) := by
    intro word
    cases word.starred with
    | false => rfl
    | true => simp only [↓reduceIte, List.mapM_cons, code_asterisk]; rfl
  obtain ⟨letter, others, spelled⟩ := List.exists_cons_of_ne_nil filled
  cases rest : others.map (fun letter => Expr.literal letter false) ++
      if word.starred then [asterisk] else [] with
  | nil =>
    obtain ⟨none, plain⟩ := List.append_eq_nil_iff.mp rest
    have single : word.parts = [.literal letter false] := by
      rw [Keyword.parts, spelled, List.map_cons, List.cons_append]
      exact congrArg _ rest
    have alone : keywordCode word = .one (.single letter) := by
      have unstarred : word.starred = false := by
        cases starred : word.starred with
        | false => rfl
        | true => simp [starred] at plain
      rw [keywordCode, spelled, List.map_eq_nil_iff.mp none, unstarred]
      rfl
    rw [single, alone]
    exact code_letter letter
  | cons next further =>
    have several : Expr.sequences word.parts =
        .sequence (.literal letter false) (.sequences (next :: further)) := by
      have same : word.parts = .literal letter false :: next :: further := by
        rw [Keyword.parts, spelled, List.map_cons, List.cons_append]
        exact congrArg _ rest
      rw [same]
      rfl
    rw [several] at parts ⊢
    rw [code.eq_def, if_neg (by simp)]
    change (Expr.literal letter false).parts ++ (Expr.sequences (next :: further)).parts = _ at parts
    simp only [Attempt.attach_map_m, parts, divided, settled_letters, after]
    change Except.ok (Code.sequences ((word.letters.map _ ++ _) ++ [])) = _
    rw [List.append_nil]
    rfl

/-- Alternatives become the alternatives of their programs. -/
theorem code_alternatives {options : List Expr} {programs : List Code} (filled : options ≠ [])
    (each : List.Forall₂ (fun option program => code [] true option = .ok program) options programs) :
    code [] true (.alternatives options) = .ok (.alternatives programs) := by
  induction each with
  | nil => exact absurd rfl filled
  | @cons option program options programs first others induction =>
    cases others with
    | nil => exact first
    | @cons next onward options programs second others =>
      have rest := induction (List.cons_ne_nil _ _)
      change code [] true (.either option (.alternatives (next :: options))) = _
      rw [code.eq_def, if_neg (by simp)]
      simp only [first, rest]
      rfl

/-- The condition at the begin is tried by itself. -/
theorem code_boundary :
    code [] true (.assertion .wordBoundary) = .ok (.condition .wordBoundary) := by
  rw [code.eq_def, if_neg (by simp)]
  rfl

/-- The set that a look asks for is settled. -/
theorem code_followers :
    code [] true (.look .ahead false (.one (some keywordFollowers))) =
      .ok (.look 0 false (.one keywordFollowers)) := by
  have inside : code [] false (.one (some keywordFollowers)) = .ok (.one keywordFollowers) := by
    rw [code.eq_def, if_pos (by decide)]
    rfl
  rw [code.eq_def, if_neg (by simp)]
  simp only [inside]
  rfl

/-- The parts of a list of keywords are tried one after another. -/
theorem code_keywords {options : Expr} {program : Code} (made : code [] true options = .ok program) :
    code [] true (.sequences [.assertion .wordBoundary, .capture 1 options,
      .look .ahead false (.one (some keywordFollowers))]) =
        .ok (.sequences [.condition .wordBoundary, program, .look 0 false (.one keywordFollowers)]) := by
  have captured : code [] true (.capture 1 options) = .ok program := by
    rw [code.eq_def, if_neg (by simp)]
    simp only [made]
    rfl
  let parts : List Expr := [.assertion .wordBoundary, .capture 1 options,
    .look .ahead false (.one (some keywordFollowers))]
  have divided : Regex.Compile.divide [] true parts = ([], parts, []) := rfl
  have tried : parts.mapM (code [] true) =
      .ok [.condition .wordBoundary, program, .look 0 false (.one keywordFollowers)] := by
    simp only [parts, List.mapM_cons, code_boundary, captured, code_followers]
    rfl
  have nothing : settled [] = .ok [] := rfl
  change code [] true (.sequence (.assertion .wordBoundary) (.sequence (.capture 1 options)
    (.look .ahead false (.one (some keywordFollowers))))) = _
  rw [code.eq_def, if_neg (by simp)]
  simp only [Attempt.attach_map_m]
  change (do
    let leading ← settled (Regex.Compile.divide [] true parts).1
    let tried ← (Regex.Compile.divide [] true parts).2.1.mapM (code [] true)
    let trailing ← settled (Regex.Compile.divide [] true parts).2.2
    return Code.sequences (leading ++ tried ++ trailing)) = _
  rw [divided]
  simp only [nothing, tried]
  rfl

/-- Keywords of letters become their program. -/
theorem keywords_matcher (filled : words ≠ []) (letters : ∀ word ∈ words, word.letters ≠ [])
    (tame : (keywordsExpr words).tame) :
    matcher (keywordsExpr words) = .ok (.machine (keywordsCode words)) := by
  have each : List.Forall₂ (fun option program => code [] true option = .ok program)
      (captures 1 (words.map Keyword.parts)) (words.map keywordCode) := by
    clear filled tame
    generalize 1 = groups
    induction words generalizing groups with
    | nil => exact .nil
    | cons word others induction =>
      obtain ⟨first, rest⟩ := List.forall_mem_cons.mp letters
      refine .cons ?_ (induction rest _)
      rw [code.eq_def, if_neg (by simp)]
      simp only [code_keyword first]
      rfl
  have some : captures 1 (words.map Keyword.parts) ≠ [] := by
    intro none
    rw [none] at each
    exact filled (List.map_eq_nil_iff.mp (List.forall₂_nil_left_iff.mp each))
  have compiled := code_keywords (code_alternatives some each)
  obtain ⟨count, counted⟩ := Expr.checked_of_tame tame 0
  have needed : (keywordsExpr words).needsChoices [] = true := by
    simp [keywordsExpr, Expr.sequences, Expr.needsChoices]
  rw [matcher, counted, Expr.references_of_tame tame]
  simp only [needed]
  change (do return Regex.Matcher.machine (← code [] true (keywordsExpr words))) = _
  rw [keywordsExpr, compiled]
  rfl

/-! ### What a search takes -/

/-- The letters of a keyword are tried without a choice, its asterisk with one. -/
theorem keyword_cost_le (word : Keyword) (spot : Spot text) : (keywordCode word).cost spot ≤ 1 := by
  have asterisk (spot : Spot text) : (Code.sequences (if word.starred then
      [.repetition (.one (.single '*')) 0 (some 1) true] else [])).cost spot ≤ 1 := by
    cases word.starred with
    | false => exact Nat.zero_le _
    | true => simp [Code.sequences, Code.cost, Regex.timesCost, Regex.times, Regex.upToCost]
  unfold keywordCode
  induction word.letters generalizing spot with
  | nil => exact asterisk spot
  | cons letter others induction => exact Code.cost_one_sequences_le induction spot

/-- A try of the keywords costs two steps for each of them at most. -/
theorem keywords_cost_le (words : List Keyword) (spot : Spot text) :
    (keywordsCode words).cost spot ≤ 2 * words.length := by
  have tried (reached : Spot text) :
      (Code.alternatives (words.map keywordCode)).cost reached ≤ 2 * words.length := by
    have each : ∀ option ∈ words.map keywordCode, option.cost reached ≤ 1 := by
      intro option listed
      obtain ⟨word, _, rfl⟩ := List.mem_map.mp listed
      exact keyword_cost_le word reached
    simpa using Code.cost_alternatives_le each
  by_cases boundary : Regex.Assertion.holds .wordBoundary spot.here
  · simpa [keywordsCode, Code.sequences, Code.cost, Code.ends, boundary, Cursor.back?]
      using tried spot
  · simp [keywordsCode, Code.sequences, Code.cost, Code.ends, boundary]

/-- A search for keywords costs a fixed number of steps for each character. -/
theorem keywords_search_le (words : List Keyword) (place : Cursor text) :
    Regex.Machine.searchCost (keywordsCode words) place ≤
      (2 * words.length + 1) * (place.after.length + 1) := by
  refine Regex.Machine.search_cost_le (fun _ => 0) _ (fun place further character _ _ => ?_)
    (fun place => ?_) place
  · have tried := keywords_cost_le words (beginning place)
    omega
  · have tried := keywords_cost_le words (beginning place)
    rw [Nat.mul_add_one]
    omega

/-- Only the choice of an asterisk adds to the stack while a keyword is tried. -/
theorem keyword_load_le (word : Keyword) (spot : Spot text) :
    (keywordCode word).load (fun _ => 0) spot ≤ 1 := by
  rw [keywordCode, ← Function.comp_def Code.one, ← List.map_map]
  refine Code.load_ones_le _ (fun spot => ?_) (fun _ => Nat.zero_le _) spot
  cases word.starred with
  | false => exact Nat.zero_le _
  | true =>
    have nothing := Code.load_one_le (.single '*') (fun _ : Spot text => Nat.le_refl 0) spot
    change max (1 + (Code.one (.single '*')).load (fun _ => 0) spot) 0 ≤ 1
    omega

/-- The stack has room for every list of keywords in every text. -/
theorem keywords_roomy (words : List Keyword) (text : List Char) :
    Regex.Machine.Roomy (keywordsCode words) text := by
  intro here
  have each : ∀ option ∈ words.map keywordCode, option.load (fun _ => 0) (beginning here) ≤ 1 := by
    intro option listed
    obtain ⟨word, _, rfl⟩ := List.mem_map.mp listed
    exact keyword_load_le word _
  have tried := Code.load_alternatives_le each (Nat.zero_le _)
  have begun : (keywordsCode words).load (fun _ => 0) (beginning here) ≤
      (Code.sequence (.alternatives (words.map keywordCode))
        (.look 0 false (.one keywordFollowers))).load (fun _ => 0) (beginning here) :=
    Code.load_condition_le _ _ _
  rw [Code.load_sequence, Code.load_ahead] at begun
  have limit : Regex.Machine.stackLimit = 1000000 := rfl
  omega

end Highlighter

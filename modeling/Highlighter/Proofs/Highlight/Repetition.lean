import Highlighter.Proofs.Highlight.Runs
import Highlighter.Proofs.Highlight.Transparency
import Highlighter.Proofs.Markup.Occurrences

/-!
# What a repeated run does

Behind the first run there is markup at the end of every keyword of the source, and at the end of
every call with which no keyword begins. Seams stay seams, so no later run finds a keyword or a call.
Numbers are found again in each run, because a number is marked as a whole and nothing ever comes
inside of it: each run puts its tags around those of the run before.
-/

namespace Highlighter

open Text (Cursor)
open Regex (Expr Found Hits)
open Markup

variable {source text : List Char} {category : Category} {expression : Expr}
  {tokens result : List Token} {traced marked final : List Traced} {found entries : List Found}
  {rest : List Char} {hits : List (Cursor (traced.map Prod.fst) × Cursor (traced.map Prod.fst))}
  {log : List Message} {figures keywords : List (Cursor source × Cursor source)}

/-- Markup stands at the end of every keyword of the source, and at the end of every call with which
no keyword begins. -/
structure Closed (source : List Char) (tokens : List Token) : Prop where
  keywords : ∀ first last : Cursor source,
    ((keywordsExpr Dart.words).ends first).head? = some last → last.index ∈ seams 0 tokens
  calls : ∀ first last : Cursor source, (Dart.functions.ends first).head? = some last →
    (∃ reached, ((keywordsExpr Dart.words).ends first).head? = some reached) ∨
      last.index ∈ seams 0 tokens

namespace Closed

/-- A pass leaves closed what is closed. -/
theorem passed (closed : Closed source tokens)
    (passed : Passed source category expression tokens result traced marked found hits) :
    Closed source result where
  keywords first last keyword := passed.seams_grow (closed.keywords first last keyword)
  calls first last call := (closed.calls first last call).imp_right passed.seams_grow

/-- Passes leave closed what is closed. -/
theorem chained {parts : List (Category × Expr)} (closed : Closed source tokens)
    (chained : Chained source parts tokens traced result final log) : Closed source result := by
  induction chained with
  | done traces => exact closed
  | pass first others induction => exact induction (closed.passed first)

/-- In closed text there is no keyword. -/
theorem no_keyword (closed : Closed source tokens) (words : Whole Unicode.isWord tokens)
    (annotates : Annotates tokens source text) {first last : Cursor text} :
    ((keywordsExpr Dart.words).ends first).head? ≠ some last := by
  intro preferred
  obtain ⟨begun, reached, _, _, keyword, missing⟩ :=
    Dart.keyword_in_source words annotates preferred
  exact missing (closed.keywords begun reached keyword)

/-- In closed text there is no call.

Proof: it would be a call of the source without seams inside of it or at its end. But its end is a
seam, or the end of a keyword that begins with it is one. -/
theorem no_call (closed : Closed source tokens) (words : Whole Unicode.isWord tokens)
    (annotates : Annotates tokens source text) {first last : Cursor text} :
    (Dart.functions.ends first).head? ≠ some last := by
  intro preferred
  obtain ⟨begun, reached, _, call, _, _, unbroken⟩ := Dart.call_in_source words annotates preferred
  obtain ⟨name, blanks, ahead, filled, _⟩ := Dart.call_parts call
  have positive := List.length_pos_iff.mpr filled
  have length := Cursor.index_of_after ahead
  rw [List.length_append] at length
  rcases closed.calls begun reached call with ⟨ended, keyword⟩ | seam
  · have within := Dart.keyword_within_call keyword call
    have bounds := unbroken _ (closed.keywords begun ended keyword)
    omega
  · have bounds := unbroken _ seam
    omega

end Closed

/-- Where an expression matches nowhere, a pass finds nothing. -/
theorem Passed.found_nil
    (passed : Passed source category expression tokens result traced marked found hits)
    (missing : ∀ first last : Cursor (traced.map Prod.fst),
      (expression.ends first).head? ≠ some last) : found.length = 0 := by
  obtain ⟨_, scanned, _⟩ := passed.scanned
  rw [scanned.length_found]
  cases scanned with
  | finished _ => rfl
  | hit matched _ => exact absurd (Regex.leftmost_some matched).2.1 (missing _ _)

/-- The pass over functions puts markup behind every call of the source with which no keyword begins,
if only keywords and literals have been marked. -/
theorem Passed.calls_closed
    (passed : Passed source category Dart.functions tokens result traced marked found hits)
    (words : Whole Unicode.isWord tokens)
    (scanned : Hits (keywordsExpr Dart.words) (Cursor.start source) keywords entries rest)
    (free : Dart.FunctionsFree keywords tokens) {first last : Cursor source}
    (call : (Dart.functions.ends first).head? = some last) :
    (∃ reached, ((keywordsExpr Dart.words).ends first).head? = some reached) ∨
      last.index ∈ seams 0 result := by
  have preferred := fun keyword listed => (scanned.preferred Dart.keywords_plain.1 keyword listed).1
  by_cases kept : ∀ keyword ∈ keywords, keyword.1.index ≠ first.index
  · obtain ⟨_, finds, _⟩ := passed.scanned
    have annotates := passed.before.annotates
    obtain ⟨begun, reached, called, _, ends⟩ := Dart.call_of_source words annotates call
      (free.unbroken annotates preferred call kept)
    exact .inr ((passed.edges _).mpr (.inr ⟨_, Dart.call_found finds called, .inr ends.symm⟩))
  · push Not at kept
    obtain ⟨keyword, listed, same⟩ := kept
    exact .inl ⟨_, Cursor.eq_of_index same ▸ preferred keyword listed⟩

/-- The first run closes the text. -/
theorem Chained.closes (chained : Chained source Dart.plan tokens traced result final log)
    (words : Whole Unicode.isWord tokens) (seamless : seams 0 tokens = []) : Closed source result := by
  obtain ⟨keyword, _⟩ := Dart.entries_read
  obtain ⟨keywords, _, _, scanned, _⟩ :=
    dart_matches (.head _) keyword Dart.keywords_plain.2 trivial (map_numbered source)
  have free : Dart.FunctionsFree keywords tokens := by
    intro _ _ _ seam
    rw [seamless] at seam
    cases seam
  obtain ⟨_, _, _, _, _, first, later, _⟩ := chained.of_cons
  obtain ⟨_, _, _, _, _, second, later, _⟩ := later.of_cons
  obtain ⟨_, _, _, _, _, third, later, _⟩ := later.of_cons
  have whole := first.edged Dart.spares_keywords words
    (Dart.plan_parts_words _ (.head _)) fun _ _ _ edge => edge
  have still := second.edged Dart.spares_literals whole
    (Dart.plan_parts_words _ (.tail _ (.head _))) fun _ _ _ edge => edge
  have opened := second.edged Dart.spares_literals (first.keywords_free scanned words free)
    Dart.literals_quoted fun _ _ _ => .inr
  have closed : Closed source _ :=
    { keywords := fun _ _ keyword =>
        third.seams_grow (second.seams_grow (first.keywords_closed words seamless keyword))
      calls := fun _ _ call => third.calls_closed still scanned opened call }
  exact closed.chained later

/-- A run over steady text tells of the numbers of the source, and over closed text of no keywords and
of no calls. -/
theorem Chained.tells (chained : Chained source Dart.plan tokens traced result final log)
    (scanned : Hits Dart.numbers (Cursor.start source) figures entries rest)
    (steady : Steady figures tokens) :
    ∃ keywords literals calls types comments,
      log = [.passed .keyword keywords, .passed .literal literals, .passed .function calls,
        .passed .number figures.length, .passed .type types, .passed .comment comments] ∧
      (Closed source tokens → keywords = 0 ∧ calls = 0) := by
  obtain ⟨_, _, _, _, _, first, afterFirst, rfl⟩ := chained.of_cons
  obtain ⟨_, _, _, _, _, second, afterSecond, rfl⟩ := afterFirst.of_cons
  obtain ⟨_, _, _, _, _, third, afterThird, rfl⟩ := afterSecond.of_cons
  obtain ⟨_, _, _, _, _, fourth, afterFourth, rfl⟩ := afterThird.of_cons
  obtain ⟨_, _, _, _, _, fifth, afterFifth, rfl⟩ := afterFourth.of_cons
  obtain ⟨_, _, _, _, _, sixth, ended, rfl⟩ := afterFifth.of_cons
  have one := first.steady (.head _) scanned steady
  have two := second.steady (.tail _ (.head _)) scanned one
  have three := third.steady (.tail _ (.tail _ (.head _))) scanned two
  have numbers := (fourth.numbers_mirror scanned three).length_eq
  obtain ⟨_, finds, _⟩ := fourth.scanned
  rw [← finds.length_found] at numbers
  rw [numbers]
  cases ended with
  | done _ =>
    refine ⟨_, _, _, _, _, rfl, fun closed => ⟨?_, ?_⟩⟩
    · exact first.found_nil fun _ _ => closed.no_keyword steady.words first.before.annotates
    · exact third.found_nil fun _ _ =>
        ((closed.passed first).passed second).no_call two.words third.before.annotates

/-- How many matches of the category the message tells of. -/
def Message.told (category : Category) : Message → Nat
  | passed other count => if other = category then count else 0
  | _ => 0

/-- As many class names have come among the pieces as the log tells of. -/
theorem Chained.names {parts : List (Category × Expr)}
    (chained : Chained source parts tokens traced result final log) (category : Category) :
    result.count (.name category) =
      tokens.count (.name category) + (log.map (Message.told category)).sum := by
  induction chained with
  | done traces => rfl
  | pass first others induction =>
    obtain ⟨_, scanned, _⟩ := first.scanned
    rw [induction, first.names, List.map_cons, List.sum_cons, Message.told, scanned.length_found,
      Nat.add_assoc]

/-! ### Runs in a row -/

/-- The text behind so many runs, each over what the run before has left. -/
def afterRuns (page : String) (count : Nat) : String :=
  (fun content => (highlight Grammar.dart content).content)^[count] page

/-- The characters of the text behind so many runs, traced to the first text. -/
def tracedRuns (page : String) (count : Nat) : List Traced :=
  (traceThrough Markup.html Grammar.dart.plan)^[count] (numbered page.toList)

/-- Runs of Dart that end with the first failure are runs in a row, if none of them fails. -/
theorem highlight_times_after {page : String} {count : Nat}
    (completes : (highlightTimes Markup.html Grammar.dart count page).error = none) :
    (highlightTimes Markup.html Grammar.dart count page).content = afterRuns page count ∧
      ∀ earlier < count, (highlight Grammar.dart (afterRuns page earlier)).error = none := by
  induction count generalizing page with
  | zero => exact ⟨rfl, nofun⟩
  | succ count induction =>
    have behind (count : Nat) : afterRuns page (count + 1) =
        afterRuns (highlight Grammar.dart page).content count := Function.iterate_succ_apply ..
    rw [highlightTimes] at completes ⊢
    cases begun : (highlightWith Markup.html Grammar.dart page).error with
    | some error =>
      simp only [begun, Option.isSome_some, ↓reduceIte] at completes
      cases completes
    | none =>
      simp only [begun, Option.isSome_none, Bool.false_eq_true, ↓reduceIte] at completes ⊢
      obtain ⟨content, others⟩ := induction completes
      rw [content, behind]
      refine ⟨rfl, fun earlier before => ?_⟩
      cases earlier with
      | zero => exact begun
      | succ earlier =>
        rw [behind]
        exact others earlier (Nat.lt_of_succ_lt_succ before)

/-- A run of Dart that completes goes on from pieces to pieces, and tells what its passes tell. -/
theorem exists_run {content : String} (traces : Traces source tokens traced)
    (shown : traced.map Prod.fst = content.toList)
    (completes : (highlight Grammar.dart content).error = none) :
    ∃ result, Chained source Dart.plan tokens traced result
        (traceThrough Markup.html Grammar.dart.plan traced) (highlight Grammar.dart content).log ∧
      (traceThrough Markup.html Grammar.dart.plan traced).map Prod.fst =
        (highlight Grammar.dart content).content.toList := by
  obtain ⟨result, log, chained⟩ :=
    exists_chained Dart.plan_read Dart.plan_spares traces shown completes
  have rewritten := chained.rewritten
  rw [shown] at rewritten
  obtain ⟨characters, told⟩ := rewritten.unique (Highlight.dart_rewritten Markup.html completes)
  rw [told] at chained
  exact ⟨result, chained, characters⟩

/-- Behind any number of runs that complete the text consists of pieces, and is steady. Behind the
first run it is closed.

Proof: induction over the runs. -/
theorem exists_pieces {text page : String} (escaped : page = Entity.escapeText text)
    {figures : List (Cursor page.toList × Cursor page.toList)}
    (scanned : Hits Dart.numbers (Cursor.start page.toList) figures entries rest) {count : Nat}
    (completes : ∀ earlier < count, (highlight Grammar.dart (afterRuns page earlier)).error = none) :
    ∃ tokens, Traces page.toList tokens (tracedRuns page count) ∧
      (tracedRuns page count).map Prod.fst = (afterRuns page count).toList ∧
      Steady figures tokens ∧ (count = 0 → seams 0 tokens = []) ∧
      (0 < count → Closed page.toList tokens) := by
  induction count with
  | zero =>
    have traces : Traces page.toList (text.toList.map Token.source) (numbered page.toList) :=
      escaped ▸ .of_text text
    exact ⟨_, traces, map_numbered _, steady_source figures _, fun _ => seams_source 0 _, nofun⟩
  | succ count induction =>
    obtain ⟨tokens, traces, shown, steady, seamless, closed⟩ :=
      induction fun earlier before => completes earlier (Nat.lt_succ_of_lt before)
    obtain ⟨result, chained, characters⟩ :=
      exists_run traces shown (completes count (Nat.lt_succ_self count))
    have traced : tracedRuns page (count + 1) =
        traceThrough Markup.html Grammar.dart.plan (tracedRuns page count) :=
      Function.iterate_succ_apply' ..
    have content : afterRuns page (count + 1) =
        (highlight Grammar.dart (afterRuns page count)).content := Function.iterate_succ_apply' ..
    rw [traced, content]
    refine ⟨result, chained.traces, characters,
      chained.steady (List.Subset.refl _) scanned steady, nofun, fun _ => ?_⟩
    rcases Nat.eq_zero_or_pos count with none | some
    · exact chained.closes steady.words (seamless none)
    · exact (closed some).chained chained

/-- Each run adds as many class names to the text as its log tells of matches. -/
theorem occurrences_run {text page : String} (escaped : page = Entity.escapeText text) {count : Nat}
    (completes : ∀ earlier < count + 1,
      (highlight Grammar.dart (afterRuns page earlier)).error = none) (category : Category) :
    occurrences (Token.name category).text (afterRuns page (count + 1)).toList =
      occurrences (Token.name category).text (afterRuns page count).toList +
        ((highlight Grammar.dart (afterRuns page count)).log.map (Message.told category)).sum := by
  obtain ⟨_, _, _, number, _⟩ := Dart.entries_read
  obtain ⟨figures, _, _, scanned, _⟩ := dart_matches (.tail _ (.tail _ (.tail _ (.head _)))) number
    (by decide) trivial (map_numbered page.toList)
  obtain ⟨tokens, traces, shown, _⟩ := exists_pieces escaped scanned
    fun earlier before => completes earlier (Nat.lt_succ_of_lt before)
  obtain ⟨result, chained, characters⟩ :=
    exists_run traces shown (completes count (Nat.lt_succ_self count))
  have content : afterRuns page (count + 1) =
      (highlight Grammar.dart (afterRuns page count)).content := Function.iterate_succ_apply' ..
  rw [content, ← characters, ← shown, ← traces.annotates.same, ← chained.traces.annotates.same,
    occurrences_name traces.orderly, occurrences_name chained.traces.orderly, chained.names]

/-- In what is written for a text no class is named. -/
theorem occurrences_page (text : String) (category : Category) :
    occurrences (Token.name category).text (Entity.escapeText text).toList = 0 := by
  rw [← written_source, occurrences_name (orderly_source _)]
  exact List.count_eq_zero.mpr (by simp)

section Runs

variable {text page : String} {count : Nat}

/-- Each of the runs tells of the numbers of the source, and each later one of no keywords and of no
calls. In front of its pass over numbers, these are just the numbers of the source. -/
theorem page_runs_tell (escaped : page = Entity.escapeText text)
    (completes : ∀ earlier < count, (highlight Grammar.dart (afterRuns page earlier)).error = none)
    {earlier : Nat} (before : earlier < count) :
    let numbers := matchesIn Grammar.dart.numbers (numbered page.toList)
    (∃ keywords literals calls types comments,
      (highlight Grammar.dart (afterRuns page earlier)).log =
        [.passed .keyword keywords, .passed .literal literals, .passed .function calls,
          .passed .number numbers.length, .passed .type types, .passed .comment comments] ∧
      (0 < earlier → keywords = 0 ∧ calls = 0)) ∧
    (tracedRuns page earlier).map Prod.fst = (afterRuns page earlier).toList ∧
    matchesIn Grammar.dart.numbers (tracedBefore .number (tracedRuns page earlier)) = numbers := by
  intro numbers
  obtain ⟨_, _, _, number, _⟩ := Dart.entries_read
  obtain ⟨figures, _, _, scanned, pieces⟩ := dart_matches (.tail _ (.tail _ (.tail _ (.head _)))) number
    (by decide) trivial (map_numbered page.toList)
  have length : figures.length = numbers.length := by
    change _ = (matchesIn Grammar.dart.numbers (numbered page.toList)).length
    rw [pieces, List.length_map]
  obtain ⟨tokens, traces, shown, steady, _, closed⟩ := exists_pieces escaped scanned
    fun former first => completes former (Nat.lt_trans first before)
  refine ⟨?_, shown, ?_⟩
  · obtain ⟨result, chained, _⟩ := exists_run traces shown (completes earlier before)
    obtain ⟨keywords, literals, calls, types, comments, log, none⟩ := chained.tells scanned steady
    exact ⟨keywords, literals, calls, types, comments, length ▸ log, fun later => none (closed later)⟩
  · obtain ⟨result, _, chained⟩ :=
      dart_chained_before .number traces shown (completes earlier before)
    exact numbers_found chained.traces
      (chained.steady ((List.takeWhile_prefix _).subset) scanned steady) scanned

/-- Each run puts a wrapper around each number of the source.

Proof: induction over the runs. -/
theorem numbers_wrapped (escaped : page = Entity.escapeText text)
    (completes : ∀ earlier < count, (highlight Grammar.dart (afterRuns page earlier)).error = none) :
    occurrences (Token.name .number).text (afterRuns page count).toList =
      count * (matchesIn Grammar.dart.numbers (numbered page.toList)).length := by
  induction count with
  | zero =>
    rw [Nat.zero_mul]
    exact escaped ▸ occurrences_page text .number
  | succ count induction =>
    obtain ⟨⟨keywords, literals, calls, types, comments, log, _⟩, _⟩ :=
      page_runs_tell escaped completes (Nat.lt_succ_self count)
    rw [occurrences_run escaped completes,
      induction fun earlier before => completes earlier (Nat.lt_succ_of_lt before), log]
    simp [Message.told, Nat.succ_mul]

/-- Behind the first run no wrapper of keywords or functions is added.

Proof: induction over the later runs. -/
theorem words_kept (escaped : page = Entity.escapeText text) (some : 0 < count)
    (completes : ∀ earlier < count, (highlight Grammar.dart (afterRuns page earlier)).error = none) :
    occurrences (Token.name .keyword).text (afterRuns page count).toList =
        occurrences (Token.name .keyword).text (afterRuns page 1).toList ∧
      occurrences (Token.name .function).text (afterRuns page count).toList =
        occurrences (Token.name .function).text (afterRuns page 1).toList := by
  induction count, some using Nat.le_induction with
  | base => exact ⟨rfl, rfl⟩
  | succ count some induction =>
    obtain ⟨⟨keywords, literals, calls, types, comments, log, none⟩, _⟩ :=
      page_runs_tell escaped completes (Nat.lt_succ_self count)
    obtain ⟨rfl, rfl⟩ := none some
    obtain ⟨keywords, calls⟩ :=
      induction fun earlier before => completes earlier (Nat.lt_succ_of_lt before)
    have keyword := occurrences_run escaped completes .keyword
    have call := occurrences_run escaped completes .function
    rw [log] at keyword call
    exact ⟨keyword.trans keywords, call.trans calls⟩

end Runs

end Highlighter

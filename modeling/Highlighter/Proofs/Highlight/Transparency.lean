import Highlighter.Proofs.Dart.Mirrors
import Highlighter.Proofs.Dart.Words
import Highlighter.Proofs.Highlight.Shallow
import Highlighter.Proofs.Highlight.Tracing

/-!
# Later passes see the source

What earlier passes of Dart have marked does not disturb the later ones: numbers, calls and comments
are matched in the annotated text as they are in the source. Only the calls that begin like a keyword
are missed, since the tag of the keyword comes between their name and the parenthesis.

The invariants are conditions on the seams, and each pass keeps them because of what stands where its
matches begin and end. No pass puts markup where a word goes on, and only the pass over numbers
touches numbers, where they begin and end.
-/

namespace Highlighter

open Text (Cursor)
open Regex (Expr Found Hits)
open Markup

variable {source : List Char} {category : Category} {expression : Expr}
  {tokens result : List Token} {traced marked : List Traced} {found entries : List Found}
  {rest : List Char} {hits : List (Cursor (traced.map Prod.fst) × Cursor (traced.map Prod.fst))}
  {allowed : Nat → Option Char → Option Char → Prop}

/-! ### What a pass keeps of the seams -/

/-- A pass keeps what is known of the seams if the ends of its matches are so. -/
theorem Passed.edged {neat : List Char → Prop} {edge : Option Char → Option Char → Prop}
    (passed : Passed source category expression tokens result traced marked found hits)
    (spares : Spares neat expression) (seamed : Seamed allowed tokens) (edged : Edged edge expression)
    (implied : ∀ index last next, edge last next → allowed index last next) :
    Seamed allowed result := by
  obtain ⟨rest, scanned, _⟩ := passed.scanned
  exact seamed.edged edged implied spares passed.before.annotates scanned passed.after.sourced
    passed.edges

/-- A pass keeps what is known of the seams if it holds of the places of its matches by their
numbers. -/
theorem Passed.placed
    (passed : Passed source category expression tokens result traced marked found hits)
    (seamed : Seamed allowed tokens)
    (fresh : ∀ hit ∈ hits, ∀ last next, allowed (sourceCount tokens hit.1.index) last next ∧
      allowed (sourceCount tokens hit.2.index) last next) : Seamed allowed result := by
  intro before after cut seam
  rcases (passed.edges before.length).mp seam with old | ⟨hit, listed, new⟩
  · exact seamed before after (by rw [passed.before.sourced, ← cut, passed.after.sourced]) old
  · obtain ⟨begins, ends⟩ := fresh hit listed before.getLast? after.head?
    rcases new with here | here
    · exact here ▸ begins
    · exact here ▸ ends

/-! ### Words and numbers -/

/-- No markup is where words go on, and none is inside of the numbers of the source. -/
structure Steady (figures : List (Cursor source × Cursor source)) (tokens : List Token) : Prop where
  words : Whole Unicode.isWord tokens
  numbers : Seamed (fun index last next => Parted Dart.isNumeric last next ∨
    ∃ number ∈ figures, index = number.1.index ∨ index = number.2.index) tokens

variable {figures : List (Cursor source × Cursor source)}

/-- No seam is inside of a number of the source.

Proof: the characters before and behind it would be of the number, and no number begins or ends
inside of another one. -/
theorem Steady.unbroken {text : List Char} (steady : Steady figures tokens)
    (annotates : Annotates tokens source text)
    (scanned : Hits Dart.numbers (Cursor.start source) figures entries rest) :
    ∀ hit ∈ figures, ∀ seam ∈ seams 0 tokens, seam ≤ hit.1.index ∨ hit.2.index ≤ seam := by
  intro hit listed seam member
  by_contra within
  obtain ⟨preferred, _, _⟩ := scanned.preferred (by decide) hit listed
  have bounded : seam ≤ source.length := by
    have inside := hit.2.index_le_length
    omega
  let place : Cursor source := .ofIndex source seam bounded
  rcases (seamed_iff annotates.sourced).mp steady.numbers place member with
    parted | ⟨number, among, here⟩
  · obtain ⟨_, span⟩ := Dart.number_of_preferred preferred
    obtain ⟨stretch, ahead, _, numeric⟩ := span.numeric
    obtain ⟨former, latter, rfl, passed, onward, length⟩ := Dart.exists_parts place ahead
      (show hit.1.index ≤ seam by omega) (show seam ≤ hit.2.index by omega)
    have filled : former ≠ [] := by
      rintro rfl
      change 0 = seam - hit.1.index at length
      omega
    cases latter with
    | nil =>
      have same : seam = hit.2.index := congrArg Cursor.index (Cursor.eq_of_after onward)
      omega
    | cons next others =>
      rw [Cursor.last_of_stretch filled passed, List.getLast?_eq_some_getLast filled, onward] at parted
      rcases parted with last | first
      · rw [Option.any_some,
          numeric _ (List.mem_append_left _ (List.getLast_mem filled))] at last
        cases last
      · rw [List.cons_append, List.head?_cons, Option.any_some,
          numeric next (List.mem_append_right _ List.mem_cons_self)] at first
        cases first
  · have disjoint := scanned.disjoint (by decide) listed among
    have ordered := (scanned.preferred (by decide) number among).2.2
    change seam = number.1.index ∨ seam = number.2.index at here
    rcases disjoint with rfl | before | behind <;> omega

/-- The text of a page is steady before any pass. -/
theorem steady_source (figures : List (Cursor source × Cursor source)) (text : List Char) :
    Steady figures (text.map Token.source) :=
  ⟨seamed_source _ _, seamed_source _ _⟩

/-- The numbers that a pass finds in the annotated text are those of the source. -/
theorem Passed.numbers_mirror
    (passed : Passed source category Dart.numbers tokens result traced marked found hits)
    (scanned : Hits Dart.numbers (Cursor.start source) figures entries rest)
    (steady : Steady figures tokens) :
    List.Forall₂ (fun copy hit => hit.1.index = sourceCount tokens copy.1.index ∧
      hit.2.index = sourceCount tokens copy.2.index) hits figures := by
  obtain ⟨_, found, _⟩ := passed.scanned
  have annotates := passed.before.annotates
  have same := (Dart.numbers_mirror steady.words annotates scanned
    (steady.unbroken annotates scanned)).scans (by decide) scanned found
      fun _ _ _ => ⟨fun _ => Nat.zero_le _, fun _ => Nat.zero_le _⟩
  rwa [List.filter_eq_self.mpr fun _ _ => decide_eq_true trivial] at same

/-- Each pass of Dart keeps the text steady. -/
theorem Passed.steady (planned : (category, expression) ∈ Dart.plan)
    (passed : Passed source category expression tokens result traced marked found hits)
    (scanned : Hits Dart.numbers (Cursor.start source) figures entries rest)
    (steady : Steady figures tokens) : Steady figures result := by
  obtain ⟨neat, spares⟩ := Dart.plan_spares _ planned
  refine ⟨passed.edged spares steady.words (Dart.plan_parts_words _ planned) fun _ _ _ edge => edge, ?_⟩
  by_cases number : category = .number
  · obtain rfl : expression = Dart.numbers := by
      simp only [Dart.plan, List.mem_cons, Prod.mk.injEq, number, reduceCtorEq, false_and, true_and,
        List.not_mem_nil, or_false, false_or] at planned
      exact planned
    refine passed.placed steady.numbers fun hit listed _ _ => ?_
    obtain ⟨number, among, begins, ends⟩ :
        ∃ number ∈ figures, number.1.index = sourceCount tokens hit.1.index ∧
          number.2.index = sourceCount tokens hit.2.index := by
      have pairs := passed.numbers_mirror scanned steady
      obtain ⟨position, inside, rfl⟩ := List.mem_iff_getElem.mp listed
      obtain ⟨same, each⟩ := List.forall₂_iff_get.mp pairs
      exact ⟨_, List.getElem_mem (same ▸ inside), each position inside (same ▸ inside)⟩
    exact ⟨.inr ⟨number, among, .inl begins.symm⟩, .inr ⟨number, among, .inr ends.symm⟩⟩
  · exact passed.edged spares steady.numbers (Dart.plan_parts_numerics _ planned number)
      fun _ _ _ edge => .inl edge

/-- Passes of Dart keep the text steady. -/
theorem Chained.steady {parts : List (Category × Expr)} {final : List Traced} {log : List Message}
    (planned : parts ⊆ Dart.plan) (chained : Chained source parts tokens traced result final log)
    (scanned : Hits Dart.numbers (Cursor.start source) figures entries rest)
    (steady : Steady figures tokens) : Steady figures result := by
  induction chained with
  | done traces => exact steady
  | pass first others induction =>
    exact induction (List.subset_of_cons_subset planned)
      (first.steady (planned List.mem_cons_self) scanned steady)

/-- Passes of Dart other than that over comments put no markup between two signs of a comment. -/
theorem Chained.comment_signs {parts : List (Category × Expr)} {final : List Traced}
    {log : List Message} (planned : parts ⊆ Dart.plan) (others : ∀ part ∈ parts, part.1 ≠ .comment)
    (chained : Chained source parts tokens traced result final log)
    (whole : Whole Dart.isCommentSign tokens) : Whole Dart.isCommentSign result := by
  induction chained with
  | done traces => exact whole
  | @pass category expression parts tokens middle result traced marked final found hits log first
      later induction =>
    have listed := planned List.mem_cons_self
    obtain ⟨neat, spares⟩ := Dart.plan_spares _ listed
    refine induction (List.subset_of_cons_subset planned)
      (fun part member => others part (List.mem_cons_of_mem _ member)) ?_
    exact first.edged spares whole
      (Dart.plan_parts_comment_signs _ listed (others _ List.mem_cons_self)) fun _ _ _ edge => edge

/-! ### Calls behind keywords -/

variable {keywords : List (Cursor source × Cursor source)}

/-- The pass over keywords puts markup where keywords of the source begin and end. -/
theorem Passed.keywords_free (passed : Passed source category (keywordsExpr Dart.words) tokens result
      traced marked found hits)
    (scanned : Hits (keywordsExpr Dart.words) (Cursor.start source) keywords entries rest)
    (words : Whole Unicode.isWord tokens) (free : Dart.FunctionsFree keywords tokens) :
    Dart.FunctionsFree keywords result := by
  obtain ⟨_, finds, _⟩ := passed.scanned
  refine passed.placed free fun hit listed _ _ => ?_
  obtain ⟨preferred, _, _⟩ := finds.preferred Dart.keywords_plain.1 hit listed
  obtain ⟨begun, reached, begins, ends, matched, _⟩ :=
    Dart.keyword_in_source words passed.before.annotates preferred
  have among := Dart.keyword_found scanned matched
  exact ⟨.inl ⟨_, among, .inl begins.symm⟩, .inl ⟨_, among, .inr ends.symm⟩⟩

/-- The first pass over keywords puts markup behind every keyword of the source. -/
theorem Passed.keywords_closed (passed : Passed source category (keywordsExpr Dart.words) tokens
      result traced marked found hits) (words : Whole Unicode.isWord tokens)
    (seamless : seams 0 tokens = []) {first last : Cursor source}
    (keyword : ((keywordsExpr Dart.words).ends first).head? = some last) :
    last.index ∈ seams 0 result := by
  obtain ⟨_, finds, _⟩ := passed.scanned
  obtain ⟨begun, reached, matched, _, ends⟩ :=
    Dart.keyword_of_source words passed.before.annotates keyword (by rw [seamless]; nofun)
  exact (passed.edges _).mpr (.inr ⟨_, Dart.keyword_found finds matched, .inr ends.symm⟩)

/-- Seams stay seams. -/
theorem Passed.seams_grow
    (passed : Passed source category expression tokens result traced marked found hits) {seam : Nat}
    (listed : seam ∈ seams 0 tokens) : seam ∈ seams 0 result :=
  (passed.edges seam).mpr (.inl listed)

/-! ### What is found -/

/-- The text in front of the pass over a category, when a text is marked by the grammar of Dart. -/
def tracedBefore (category : Category) (traced : List Traced) : List Traced :=
  traceThrough Markup.html (Grammar.dart.plan.takeWhile fun entry => entry.1 ≠ category) traced

/-- The entries before a category are read as the expressions before it. -/
theorem reads_before (category : Category) {plan : List (Category × Option Pattern)}
    {parts : List (Category × Expr)} (reads : List.Forall₂ Grammar.ReadAs plan parts) :
    List.Forall₂ Grammar.ReadAs (plan.takeWhile fun entry => entry.1 ≠ category)
      (parts.takeWhile fun part => part.1 ≠ category) := by
  induction reads with
  | nil => exact .nil
  | @cons entry part plan parts same others induction =>
    have categories : entry.1 = part.1 := same.1
    by_cases here : entry.1 = category
    · rw [List.takeWhile_cons_of_neg (by simpa using here),
        List.takeWhile_cons_of_neg (by simpa using categories ▸ here)]
      exact .nil
    · rw [List.takeWhile_cons_of_pos (by simpa using here),
        List.takeWhile_cons_of_pos (by simpa using categories ▸ here)]
      exact .cons same induction

/-- If a run of Dart completes, its passes before a category go on from pieces to pieces. -/
theorem dart_chained_before (category : Category) (traces : Traces source tokens traced)
    {content : String} (shown : traced.map Prod.fst = content.toList)
    (completes : (highlight Grammar.dart content).error = none) :
    ∃ result log, Chained source (Dart.plan.takeWhile fun part => part.1 ≠ category) tokens traced
      result (tracedBefore category traced) log := by
  have run : (Highlight.passes Markup.html Grammar.dart.plan content).error = none := completes
  have split := List.takeWhile_append_dropWhile (p := fun entry : Category × Option Pattern =>
    entry.1 ≠ category) (l := Grammar.dart.plan)
  rw [← split] at run
  exact exists_chained (reads_before category Dart.plan_read)
    (fun part listed => Dart.plan_spares part ((List.takeWhile_prefix _).subset listed)) traces shown
    (Highlight.passes_completed run).1

/-- If a run of Dart completes, each pattern completes on what the passes before it have left. -/
theorem dart_completes_before {entry : Category × Option Pattern} (listed : entry ∈ Grammar.dart.plan)
    {pattern : Pattern} (present : entry.2 = some pattern) {content : String}
    (completes : (highlight Grammar.dart content).error = none) :
    Highlight.Completes pattern (Highlight.passes Markup.html
      (Grammar.dart.plan.takeWhile fun other => other.1 ≠ entry.1) content).content := by
  have split : ∃ others, Grammar.dart.plan =
      (Grammar.dart.plan.takeWhile fun other => other.1 ≠ entry.1) ++ entry :: others := by
    simp only [Grammar.plan, List.mem_cons, List.not_mem_nil, or_false] at listed
    rcases listed with rfl | rfl | rfl | rfl | rfl | rfl <;> exact ⟨_, rfl⟩
  obtain ⟨others, split⟩ := split
  generalize (Grammar.dart.plan.takeWhile fun other => other.1 ≠ entry.1) = earlier at split ⊢
  have run : (Highlight.passes Markup.html Grammar.dart.plan content).error = none := completes
  rw [split] at run
  have later := (Highlight.passes_completed run).2
  obtain ⟨category, _⟩ := entry
  obtain rfl := present
  obtain ⟨_, _, _, _, same, filled, _⟩ := Dart.exists_read listed
  obtain rfl := Option.some.inj same
  rcases Highlight.passes_head Markup.html (category, some pattern)
      (Highlight.passes Markup.html earlier content).content with
    ⟨first, settles, begun⟩ | ⟨_, error, _, _, _, failed⟩
  · exact settles.completes filled
  · rw [failed] at later
    cases later

/-- What an entry of Dart finds in a text for which the stack suffices lies under the matches of
its expression. -/
theorem dart_matches {category : Category} {entry : Option Pattern} {expression : Expr}
    (planned : (category, entry) ∈ Grammar.dart.plan)
    (reads : Grammar.ReadAs (category, entry) (category, expression))
    (consumes : 0 < expression.minimalLength) {traced : List Traced} {text : List Char}
    (bounded : Dart.Bounded category text) (shown : traced.map Prod.fst = text) :
    ∃ hits found rest, Hits expression (Cursor.start text) hits found rest ∧
      matchesIn entry traced =
        hits.map fun hit => (traced.drop hit.1.index).take (hit.2.index - hit.1.index) :=
  exists_matches reads consumes shown fun pattern present =>
    (Highlight.dart_reliable _ planned pattern present).completes (by rwa [String.toList_ofList])

/-- The numbers of steady text are those of the source. -/
theorem numbers_found (traces : Traces source tokens traced) (steady : Steady figures tokens)
    (scanned : Hits Dart.numbers (Cursor.start source) figures entries rest) :
    matchesIn Grammar.dart.numbers traced = matchesIn Grammar.dart.numbers (numbered source) := by
  have planned : (Category.number, Grammar.dart.numbers) ∈ Grammar.dart.plan :=
    .tail _ (.tail _ (.tail _ (.head _)))
  obtain ⟨_, _, _, number, _⟩ := Dart.entries_read
  obtain ⟨copies, _, _, finds, pieces⟩ := dart_matches planned number (by decide) trivial rfl
  obtain ⟨hits, _, _, again, originals⟩ :=
    dart_matches planned number (by decide) trivial (map_numbered source)
  obtain ⟨rfl, _, _⟩ := scanned.unique again
  have annotates := traces.annotates
  have mirrored := traces.mirrored (by decide) scanned
    (Dart.numbers_mirror steady.words annotates scanned (steady.unbroken annotates scanned)) finds
  rw [List.filter_eq_self.mpr fun _ _ => decide_eq_true trivial] at mirrored
  rw [pieces, originals, ← mirrored]
  refine List.map_congr_left fun copy listed => ?_
  obtain ⟨preferred, _, inOrder⟩ := finds.preferred (by decide) copy listed
  obtain ⟨begun, reached, begins, _, _, level⟩ :=
    Dart.number_in_source steady.words annotates preferred
  exact (traces.piece_plain inOrder (by rw [level, begins])).symm

/-- Parts of a numbered text that have characters begin alike if they begin at one place. -/
theorem head_eq_iff {text : List Char} {first last begun ended : Nat} (former : first < last)
    (latter : begun < ended) (inside : last ≤ text.length) (within : ended ≤ text.length) :
    ((((numbered text).drop first).take (last - first)).head? =
      (((numbered text).drop begun).take (ended - begun)).head?) ↔ first = begun := by
  have head {place behind : Nat} (inOrder : place < behind) (bounded : behind ≤ text.length) :
      (((numbered text).drop place).take (behind - place)).head? =
        some (text[place], some place) := by
    have filled : behind - place ≠ 0 := by omega
    rw [List.head?_take, if_neg filled, List.head?_drop, numbered, List.getElem?_map,
      List.getElem?_zipIdx, List.getElem?_eq_getElem (by omega)]
    simp
  rw [head former inside, head latter within]
  constructor
  · intro same
    exact Option.some.inj (Prod.mk.inj (Option.some.inj same)).2
  · rintro rfl
    rfl

/-- The calls of a text in which only keywords and literals have been marked are those of the source
with which no keyword begins, if the searches for calls end in both texts. -/
theorem calls_found (traces : Traces source tokens traced) (words : Whole Unicode.isWord tokens)
    (ended : ∀ pattern, Grammar.dart.functions = some pattern →
      Highlight.Completes pattern (String.ofList (traced.map Prod.fst)))
    (original : ∀ pattern, Grammar.dart.functions = some pattern →
      Highlight.Completes pattern (String.ofList source))
    (scanned : Hits (keywordsExpr Dart.words) (Cursor.start source) keywords entries rest)
    (closed : ∀ keyword ∈ keywords, keyword.2.index ∈ seams 0 tokens)
    (free : Dart.FunctionsFree keywords tokens) :
    matchesIn Grammar.dart.functions traced =
      (matchesIn Grammar.dart.functions (numbered source)).filter fun call =>
        ∀ keyword ∈ matchesIn Grammar.dart.keywords (numbered source),
          keyword.head? ≠ call.head? := by
  obtain ⟨keyword, _, function, _⟩ := Dart.entries_read
  obtain ⟨copies, _, _, finds, pieces⟩ := exists_matches function (by decide) rfl ended
  obtain ⟨hits, _, _, calls, originals⟩ :=
    exists_matches function (by decide) (map_numbered source) original
  obtain ⟨spelled, _, _, again, spellings⟩ :=
    dart_matches (.head _) keyword Dart.keywords_plain.2 trivial (map_numbered source)
  obtain ⟨rfl, _, _⟩ := scanned.unique again
  have annotates := traces.annotates
  have preferred := fun keyword listed => scanned.preferred Dart.keywords_plain.1 keyword listed
  have mirrored := traces.mirrored (by decide) calls
    (Dart.functions_mirror words annotates calls (fun keyword listed =>
      (preferred keyword listed).1) closed free) finds
  have plain : copies.map (fun copy => (traced.drop copy.1.index).take (copy.2.index - copy.1.index)) =
      copies.map fun copy =>
        ((traced.drop copy.1.index).take (copy.2.index - copy.1.index)).filter (·.2.isSome) := by
    refine List.map_congr_left fun copy listed => ?_
    obtain ⟨called, _, inOrder⟩ := finds.preferred (by decide) copy listed
    obtain ⟨begun, reached, begins, _, _, level, _⟩ :=
      Dart.call_in_source words annotates called
    exact (traces.piece_plain inOrder (by rw [level, begins])).symm
  rw [pieces, plain, mirrored, originals, List.filter_map]
  refine congrArg (List.map _) (List.filter_congr fun hit listed => ?_)
  have filled {expression : Expr} (tame : expression.tame) (consumes : 0 < expression.minimalLength)
      {first last : Cursor source} (matched : (expression.ends first).head? = some last) :
      first.index < last.index := by
    have taken := Expr.minimal_length_le tame (List.mem_of_mem_head? matched)
    omega
  have called := filled (by decide) (by decide) (calls.preferred (by decide) hit listed).1
  rw [Function.comp_apply, spellings, decide_eq_decide, List.forall_mem_map]
  refine forall₂_congr fun keyword among => ?_
  have spelled := filled Dart.keywords_plain.1 Dart.keywords_plain.2 (preferred keyword among).1
  exact not_congr
    (head_eq_iff spelled called keyword.2.index_le_length hit.2.index_le_length).symm

/-- The comments of a text in which no markup is between the signs of comments are those of the
source, apart from the markup inside of them. -/
theorem comments_found (traces : Traces source tokens traced)
    (signs : Whole Dart.isCommentSign tokens) :
    (matchesIn Grammar.dart.comments traced).map (fun comment => comment.filter (·.2.isSome)) =
      matchesIn Grammar.dart.comments (numbered source) := by
  have planned : (Category.comment, Grammar.dart.comments) ∈ Grammar.dart.plan :=
    .tail _ (.tail _ (.tail _ (.tail _ (.tail _ (.head _)))))
  obtain ⟨_, _, _, _, _, comment⟩ := Dart.entries_read
  obtain ⟨copies, _, _, finds, pieces⟩ := dart_matches planned comment (by decide) trivial rfl
  obtain ⟨hits, _, _, original, originals⟩ :=
    dart_matches planned comment (by decide) trivial (map_numbered source)
  have mirrored := traces.mirrored (by decide) original
    (Dart.comments_mirror signs traces.annotates original) finds
  rw [List.filter_eq_self.mpr fun _ _ => decide_eq_true trivial] at mirrored
  rw [pieces, originals, ← mirrored, List.map_map]
  rfl

/-- The text in front of the pass over a category is what the passes before it have left. -/
theorem shown_before (category : Category) (page : String) :
    (tracedBefore category (numbered page.toList)).map Prod.fst =
      (Highlight.passes Markup.html (Grammar.dart.plan.takeWhile fun other => other.1 ≠ category)
        page).content.toList :=
  (Highlight.trace_through_passes _ _ (map_numbered page.toList)).1

/-- If a run completes, each pattern completes on the text in front of its pass. It does so on the
text itself if the stack suffices. -/
theorem dart_scan_some {entry : Category × Option Pattern} (listed : entry ∈ Grammar.dart.plan)
    {pattern : Pattern} (present : entry.2 = some pattern) {page : String}
    (completes : (highlight Grammar.dart page).error = none) :
    (pattern.scan? ((tracedBefore entry.1 (numbered page.toList)).map Prod.fst)).isSome ∧
      (Dart.Bounded entry.1 page.toList → (pattern.scan? page.toList).isSome) := by
  obtain ⟨_, member, _, actual, same, _, means⟩ := Dart.exists_read listed
  obtain rfl := Option.some.inj (present.symm.trans same)
  obtain ⟨_, spares⟩ := Dart.plan_spares _ member
  have finds {content : String} (completes : Highlight.Completes pattern content) :
      (pattern.scan? content.toList).isSome := by
    rw [← String.ofList_toList (s := content)] at completes
    obtain ⟨_, _, _, found, _⟩ := means.scan_some spares.consumes completes
    rw [found]
    rfl
  constructor
  · rw [shown_before]
    exact finds (dart_completes_before listed present completes)
  · intro bounded
    exact finds ((Highlight.dart_reliable entry listed pattern present).completes bounded)

/-- The calls in front of the pass over functions are those of the source with which no keyword
begins, if the search for these ends. -/
theorem calls_before {text page : String} (escaped : page = Entity.escapeText text)
    (completes : (highlight Grammar.dart page).error = none)
    (original : ∀ pattern, Grammar.dart.functions = some pattern →
      (pattern.scan? page.toList).isSome) :
    matchesIn Grammar.dart.functions (tracedBefore .function (numbered page.toList)) =
      (matchesIn Grammar.dart.functions (numbered page.toList)).filter fun call =>
        ∀ keyword ∈ matchesIn Grammar.dart.keywords (numbered page.toList),
          keyword.head? ≠ call.head? := by
  have traces : Traces page.toList (text.toList.map Token.source) (numbered page.toList) :=
    escaped ▸ .of_text text
  obtain ⟨keyword, _⟩ := Dart.entries_read
  obtain ⟨keywords, _, _, spelled, _⟩ := dart_matches (.head _) keyword Dart.keywords_plain.2
    trivial (map_numbered page.toList)
  obtain ⟨tokens, log, chained⟩ :=
    dart_chained_before .function traces (map_numbered _) completes
  have listed : (Category.function, Grammar.dart.functions) ∈ Grammar.dart.plan :=
    .tail _ (.tail _ (.head _))
  have ended : ∀ pattern, Grammar.dart.functions = some pattern → Highlight.Completes pattern
      (String.ofList ((tracedBefore .function (numbered page.toList)).map Prod.fst)) :=
    fun pattern present =>
      Pattern.completes_of_scan (dart_scan_some listed present completes).1
  have planned : Dart.plan.takeWhile (fun part => part.1 ≠ .function) =
      [(.keyword, keywordsExpr Dart.words), (.literal, Dart.literals)] := rfl
  rw [planned] at chained
  obtain ⟨middle, between, _, _, _, first, others, _⟩ := chained.of_cons
  obtain ⟨last, behind, _, _, _, second, done, _⟩ := others.of_cons
  have whole : Whole Unicode.isWord (text.toList.map Token.source) := seamed_source _ _
  have words := first.edged Dart.spares_keywords whole
    (Dart.plan_parts_words _ (.head _)) fun _ _ _ edge => edge
  have free := first.keywords_free spelled whole (seamed_source _ _)
  have closed : ∀ keyword ∈ keywords, keyword.2.index ∈ seams 0 middle := fun keyword listed =>
    first.keywords_closed whole (seams_source 0 _)
      (spelled.preferred Dart.keywords_plain.1 keyword listed).1
  have same : last = tokens ∧ behind = tracedBefore .function (numbered page.toList) := by
    generalize tracedBefore .function (numbered page.toList) = final at done
    cases done with
    | done _ => exact ⟨rfl, rfl⟩
  obtain ⟨rfl, final⟩ := same
  rw [← final] at ended ⊢
  refine calls_found second.after ?_ ended
    (fun pattern present => Pattern.completes_of_scan (original pattern present)) spelled
    (fun keyword listed => ?_) ?_
  · exact second.edged Dart.spares_literals words
      (Dart.plan_parts_words _ (.tail _ (.head _))) fun _ _ _ edge => edge
  · exact second.seams_grow (closed keyword listed)
  · exact second.edged Dart.spares_literals free Dart.literals_quoted fun _ _ _ => .inr

/-- In an open quote there is a number. -/
theorem open_quote_number (letters : Nat) :
    matchesIn Grammar.dart.numbers (numbered (Dart.openQuote letters).toList) ≠ [] := by
  obtain ⟨_, _, _, number, _⟩ := Dart.entries_read
  obtain ⟨hits, _, _, scanned, pieces⟩ :=
    dart_matches (.tail _ (.tail _ (.tail _ (.head _)))) number (by decide) trivial
      (map_numbered (Dart.openQuote letters).toList)
  obtain ⟨place, stepped, _⟩ := Cursor.next_of_after
    (show (Cursor.start (Dart.openQuote letters).toList).after = _ from Dart.to_list_open_quote letters)
  have first : place.index = 1 := Cursor.index_of_next? stepped
  have found : Dart.numberEnd? (Dart.openQuote letters).toList place.index = some 2 := by
    rw [first, Dart.to_list_open_quote]
    rfl
  rw [Dart.number_end_agrees place] at found
  rw [pieces]
  intro none
  obtain rfl := List.map_eq_nil_iff.mp none
  cases scanned with
  | finished missing =>
    rw [Regex.leftmost_none missing (Nat.zero_le _)] at found
    cases found

end Highlighter

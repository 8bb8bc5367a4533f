import Highlighter.Proofs.Highlight.Wrapping
import Highlighter.Proofs.Markup.Nesting
import Highlighter.Proofs.Markup.Twins
import Highlighter.Proofs.Regex.Repeats

/-!
# How passes add seams, and how places correspond

A pass adds seams at the places of the source where its matches begin and end. What is known of
the characters there is known of the new seams: at a place that is no seam yet, the annotated text
has the neighbors of the source.

A stretch of plain characters in annotated text is a stretch of the source; the other way round,
seams must not come in between. A pair of places that lie between the same pieces of both texts
goes along with such stretches.
-/

namespace Highlighter.Markup

open Text (Cursor)
open Regex (Expr Found Hits)
open Regex.Assertion (startsWithWord)

/-- The pieces make up the text, and those of them that are no markup make up the source. -/
structure Annotates (tokens : List Token) (source text : List Char) : Prop where
  orderly : Orderly false tokens
  same : written tokens = text
  sourced : written (sources tokens) = source

/-- A place of the annotated text and one of its source lie between the same pieces. -/
structure Twin (former latter : List Token) {text source : List Char} (place : Cursor text)
    (origin : Cursor source) : Prop where
  before : written former = place.before.reverse
  after : written latter = place.after
  sourceBefore : written (sources former) = origin.before.reverse
  sourceAfter : written (sources latter) = origin.after

variable {text source : List Char} {former latter tokens : List Token} {place last : Cursor text}
  {origin ended : Cursor source}

/-- The place between two parts of a text. -/
theorem exists_cursor {before after : List Char} (same : before ++ after = text) :
    ∃ place : Cursor text, before = place.before.reverse ∧ after = place.after :=
  ⟨⟨before.reverse, after, before.length, by simpa using same, by simp⟩, by simp, rfl⟩

/-- Every place between two pieces has a place of the source. -/
theorem exists_origin (before : written former = place.before.reverse)
    (after : written latter = place.after)
    (same : written (sources (former ++ latter)) = source) :
    ∃ origin : Cursor source, Twin former latter place origin := by
  rw [sources_append, written_append] at same
  obtain ⟨origin, sourceBefore, sourceAfter⟩ := exists_cursor same
  exact ⟨origin, before, after, sourceBefore, sourceAfter⟩

/-- Every place of the source between two parts of the pieces has a place of the text. -/
theorem exists_place (before : written (sources former) = origin.before.reverse)
    (after : written (sources latter) = origin.after) (same : written (former ++ latter) = text) :
    ∃ place : Cursor text, Twin former latter place origin := by
  rw [written_append] at same
  obtain ⟨place, textBefore, textAfter⟩ := exists_cursor same
  exact ⟨place, textBefore, textAfter, before, after⟩

namespace Twin

/-- The number of the place in the source is the count of source characters before it. -/
theorem count (twin : Twin former latter place origin) :
    sourceCount (former ++ latter) place.index = origin.index := by
  have lengths := congrArg List.length twin.before
  have numbers := congrArg List.length twin.sourceBefore
  rw [List.length_reverse, ← place.counts] at lengths
  rw [List.length_reverse, ← origin.counts] at numbers
  rw [← lengths, count_of_split, numbers]

/-- A place of the source is a seam, or has the neighbors of its twin. -/
theorem seam_or_neighbors (twin : Twin former latter place origin) :
    origin.index ∈ seams 0 (former ++ latter) ∨
      place.before.head? = origin.before.head? ∧ place.after.head? = origin.after.head? := by
  have numbers := congrArg List.length twin.sourceBefore
  rw [List.length_reverse, ← origin.counts] at numbers
  have cases := seam_or_same former latter
  rwa [numbers, twin.before, twin.after, twin.sourceBefore, twin.sourceAfter,
    List.getLast?_reverse, List.getLast?_reverse] at cases

/-- Where a word comes next in the source, there is a word before the place if there is one before
its twin. -/
theorem word_before (twin : Twin former latter place origin)
    (whole : Whole Unicode.isWord (former ++ latter)) (outside : state? false former = some false)
    (next : startsWithWord origin.after) :
    startsWithWord place.before = startsWithWord origin.before := by
  have plain : Unicode.isWord '>' = false := by decide
  have onward := whole.last (by rw [twin.sourceAfter]; exact next)
  have back := last_apart outside plain
  rw [twin.before, twin.sourceBefore, List.getLast?_reverse, List.getLast?_reverse] at onward back
  change startsWithWord place.before = false → startsWithWord origin.before = false at onward
  change startsWithWord origin.before = false → startsWithWord place.before = false at back
  cases here : startsWithWord place.before with
  | false => rw [onward here]
  | true =>
    cases there : startsWithWord origin.before with
    | false =>
      rw [back there] at here
      cases here
    | true => rfl

/-- Where a word is before the place in the source, one comes next if one does at its twin. -/
theorem word_after (twin : Twin former latter place origin)
    (whole : Whole Unicode.isWord (former ++ latter)) (ordered : Orderly false latter)
    (before : startsWithWord origin.before) :
    startsWithWord place.after = startsWithWord origin.after := by
  have plain : Unicode.isWord '<' = false := by decide
  have last : (written (sources former)).getLast?.any Unicode.isWord := by
    rw [twin.sourceBefore, List.getLast?_reverse]
    exact before
  have onward := whole.next last
  have back := next_apart ordered plain
  rw [twin.after, twin.sourceAfter] at onward back
  change startsWithWord place.after = false → startsWithWord origin.after = false at onward
  change startsWithWord origin.after = false → startsWithWord place.after = false at back
  cases here : startsWithWord place.after with
  | false => rw [onward here]
  | true =>
    cases there : startsWithWord origin.after with
    | false =>
      rw [back there] at here
      cases here
    | true => rfl

/-- Plain characters ahead in the text are ahead in the source, and lead to twins. -/
theorem onward (twin : Twin former latter place origin) (ordered : Orderly false latter)
    {stretch : List Char} (plain : ∀ character ∈ stretch, character ≠ '<' ∧ character ≠ '&')
    (ahead : place.after = stretch ++ last.after) :
    ∃ (more : List Token) (reached : Cursor source),
      latter = stretch.map Token.source ++ more ∧ origin.after = stretch ++ reached.after ∧
      Twin (former ++ stretch.map Token.source) more last reached ∧
      state? false (stretch.map Token.source) = some false ∧ Orderly false more := by
  obtain ⟨more, rfl, same, behind, outside, further⟩ :=
    plain_stretch ordered plain (twin.after.trans ahead)
  have split := twin.sourceAfter
  rw [sources_append, written_append, sources_source, same] at split
  obtain ⟨reached, rest, _⟩ := Cursor.exists_behind split.symm
  refine ⟨more, reached, rfl, by rw [← split, rest], ⟨?_, behind, ?_, rest.symm⟩, outside, further⟩
  · rw [written_append, twin.before, same, Cursor.before_of_after ahead]
    simp
  · rw [sources_append, written_append, twin.sourceBefore, sources_source, same,
      Cursor.before_of_after (show origin.after = stretch ++ reached.after by rw [← split, rest])]
    simp

/-- Behind plain characters, so many more characters of the source are counted. -/
theorem level (twin : Twin former latter place origin) (ordered : Orderly false latter)
    {stretch : List Char} (plain : ∀ character ∈ stretch, character ≠ '<' ∧ character ≠ '&')
    (ahead : place.after = stretch ++ last.after) :
    sourceCount (former ++ latter) last.index = origin.index + stretch.length := by
  obtain ⟨more, reached, rfl, split, behind, _, _⟩ := twin.onward ordered plain ahead
  rw [← List.append_assoc, behind.count, Cursor.index_of_after split]

/-- Behind a plain character, one more character of the source is counted. -/
theorem moves (twin : Twin former latter place origin) (ordered : Orderly false latter)
    {character : Char} {rest : List Char} (plain : character ≠ '<' ∧ character ≠ '&')
    (ahead : place.after = character :: rest) :
    sourceCount (former ++ latter) (place.index + 1) = origin.index + 1 := by
  obtain ⟨second, same, number⟩ :=
    Cursor.exists_behind (show place.after = [character] ++ rest from ahead)
  have alone : ∀ other ∈ [character], other ≠ '<' ∧ other ≠ '&' :=
    fun _ listed => List.mem_singleton.mp listed ▸ plain
  have single := twin.level ordered alone (show place.after = [character] ++ second.after by
    rw [ahead, same, List.singleton_append])
  rwa [number] at single

/-- Where plain characters end with one of a word, what follows goes on with the word in both texts
or in neither. -/
theorem words_behind (twin : Twin former latter place origin)
    (whole : Whole Unicode.isWord (former ++ latter)) (ordered : Orderly false latter)
    {stretch : List Char} (plain : ∀ character ∈ stretch, character ≠ '<' ∧ character ≠ '&')
    (word : stretch.getLast?.any Unicode.isWord) (ahead : place.after = stretch ++ last.after) :
    ∃ reached : Cursor source, origin.after = stretch ++ reached.after ∧
      startsWithWord last.after = startsWithWord reached.after := by
  obtain ⟨more, reached, rfl, split, behind, _, further⟩ := twin.onward ordered plain ahead
  have filled : stretch ≠ [] := by
    rintro rfl
    cases word
  refine ⟨reached, split, behind.word_after (by rwa [List.append_assoc]) further ?_⟩
  rw [← Cursor.last_of_stretch filled split] at word
  exact word

/-- Plain characters that another one follows are not broken in the source, nor before the one that
follows. -/
theorem unbroken (twin : Twin former latter place origin) (ordered : Orderly false latter)
    {stretch rest : List Char} {next : Char}
    (plain : ∀ character ∈ stretch, character ≠ '<' ∧ character ≠ '&')
    (unescaped : next ≠ '<' ∧ next ≠ '&') (ahead : place.after = stretch ++ last.after)
    (follows : last.after = next :: rest) :
    ∃ reached : Cursor source, origin.after = stretch ++ reached.after ∧
      reached.after.head? = some next ∧
      ∀ seam ∈ seams 0 (former ++ latter), seam ≤ origin.index ∨ reached.index < seam := by
  obtain ⟨beyond, same, _⟩ := Cursor.exists_behind (show last.after = [next] ++ rest from follows)
  have longer : place.after = (stretch ++ [next]) ++ beyond.after := by
    rw [ahead, follows, same]
    simp
  have both : ∀ character ∈ stretch ++ [next], character ≠ '<' ∧ character ≠ '&' := by
    intro character listed
    rcases List.mem_append.mp listed with inside | single
    · exact plain character inside
    · exact List.mem_singleton.mp single ▸ unescaped
  obtain ⟨_, _, single, _⟩ := plain_stretch ordered both (twin.after.trans longer)
  obtain ⟨more, further, rfl, split, _, _, _⟩ := twin.onward ordered both longer
  have onward : origin.after = stretch ++ next :: further.after := by simp [split]
  obtain ⟨reached, rest, number⟩ := Cursor.exists_behind onward
  refine ⟨reached, by rw [onward, rest], by rw [rest]; rfl, fun seam listed => ?_⟩
  have within := not_seam_within listed
  have before := congrArg List.length twin.sourceBefore
  rw [List.length_reverse, ← origin.counts] at before
  rw [before, single, List.length_append, List.length_singleton] at within
  omega

end Twin

/-- A match in annotated text begins and ends between pieces, outside of tags at its begin. -/
theorem Spares.twins {neat : List Char → Prop} {expression : Expr} (spares : Spares neat expression)
    (annotates : Annotates tokens source text)
    (preferred : (expression.ends place).head? = some last) :
    ∃ former covered latter, ∃ begun ended : Cursor source,
      tokens = former ++ (covered ++ latter) ∧ Twin former (covered ++ latter) place begun ∧
      Twin (former ++ covered) latter last ended ∧ state? false former = some false ∧
      Orderly false (covered ++ latter) := by
  obtain ⟨former, _, rfl, before, after, outside, ordered, covered, latter, _, rfl, stretch, behind,
    _, _, _⟩ := spares.places preferred annotates.orderly annotates.same
  have inOrder := Expr.index_le_of_mem_ends spares.tame (List.mem_of_mem_head? preferred)
  have passed : written (former ++ covered) = last.before.reverse := by
    rw [written_append, before, stretch, Cursor.before_append_slice inOrder]
  obtain ⟨begun, first⟩ := exists_origin before after annotates.sourced
  obtain ⟨ended, second⟩ : ∃ ended : Cursor source, Twin (former ++ covered) latter last ended :=
    exists_origin passed behind (by rw [List.append_assoc]; exact annotates.sourced)
  exact ⟨former, covered, latter, begun, ended, rfl, first, second, outside, ordered⟩

/-- Pieces of the source alone are orderly. -/
theorem orderly_sources (tokens : List Token) : Orderly false (sources tokens) := by
  induction tokens with
  | nil => rfl
  | cons token others induction =>
    rcases token.markup_or_source with markup | ⟨character, rfl⟩
    · rw [sources_cons_markup markup]
      exact induction
    · exact orderly_cons_iff.mpr ⟨false, rfl, induction⟩

/-- Where plain characters of the source follow each other, and no seam comes between them, they
stand in one piece in the annotated text, outside of tags. -/
theorem exists_copy (annotates : Annotates tokens source text) {before rest : List Token}
    (split : sources tokens = before ++ rest) (passed : written before = origin.before.reverse)
    (onward : written rest = origin.after) (ordered : Orderly false rest) {stretch : List Char}
    (filled : stretch ≠ []) (plain : ∀ character ∈ stretch, character ≠ '<' ∧ character ≠ '&')
    {reached : Cursor source} (ahead : origin.after = stretch ++ reached.after)
    (unbroken : ∀ seam ∈ seams 0 tokens, seam ≤ origin.index ∨ reached.index ≤ seam) :
    ∃ former latter, ∃ begun behind : Cursor text,
      tokens = former ++ (stretch.map Token.source ++ latter) ∧
      Twin former (stretch.map Token.source ++ latter) begun origin ∧
      Twin (former ++ stretch.map Token.source) latter behind reached ∧
      begun.after = stretch ++ behind.after ∧ state? false former = some false ∧
      Orderly false latter := by
  obtain ⟨after, rfl, single, behind, _, _⟩ := plain_stretch ordered plain (onward.trans ahead)
  obtain ⟨first, others, rfl⟩ := List.exists_cons_of_ne_nil filled
  have begins : (written before).length = origin.index := by
    rw [passed, List.length_reverse, origin.counts]
  have ends : reached.index = origin.index + (first :: others).length := Cursor.index_of_after ahead
  obtain ⟨former, latter, rfl, rfl, rfl, outside, further⟩ :=
    split_of_stretch annotates.orderly split (by rw [single, begins, ← ends]; exact unbroken)
  have whole : written (sources ((first :: others).map Token.source ++ latter)) = origin.after := by
    rw [sources_append, sources_source, written_append, single, behind, ahead]
  obtain ⟨begun, twin⟩ : ∃ begun : Cursor text,
      Twin former ((first :: others).map Token.source ++ latter) begun origin :=
    exists_place passed whole annotates.same
  have textAhead : begun.after = (first :: others) ++ written latter := by
    rw [← twin.after, written_append, single]
  obtain ⟨last, rest, _⟩ := Cursor.exists_behind textAhead
  have led : begun.after = (first :: others) ++ last.after := by rw [textAhead, rest]
  refine ⟨former, latter, begun, last, rfl, twin, ⟨?_, rest.symm, ?_, behind⟩, led, outside, ?_⟩
  · rw [written_append, twin.before, single, Cursor.before_of_after led]
    simp
  · rw [sources_append, written_append, twin.sourceBefore, sources_source, single,
      Cursor.before_of_after ahead]
    simp
  · obtain ⟨_, reached, rest⟩ := orderly_append_iff.mp further
    have outside : state? false ((first :: others).map Token.source) = some false :=
      orderly_source (first :: others)
    rw [outside] at reached
    obtain rfl := Option.some.inj reached
    exact rest

/-- Where a match of the source begins with plain characters, and no seam comes between them, these
stand in one piece in the annotated text. -/
theorem Spares.copies {neat : List Char → Prop} {expression : Expr} (spares : Spares neat expression)
    (annotates : Annotates tokens source text)
    (preferred : (expression.ends origin).head? = some ended) {stretch : List Char}
    (filled : stretch ≠ []) (plain : ∀ character ∈ stretch, character ≠ '<' ∧ character ≠ '&')
    {reached : Cursor source} (ahead : origin.after = stretch ++ reached.after)
    (unbroken : ∀ seam ∈ seams 0 tokens, seam ≤ origin.index ∨ reached.index ≤ seam) :
    ∃ former latter, ∃ begun behind : Cursor text,
      tokens = former ++ (stretch.map Token.source ++ latter) ∧
      Twin former (stretch.map Token.source ++ latter) begun origin ∧
      Twin (former ++ stretch.map Token.source) latter behind reached ∧
      begun.after = stretch ++ behind.after ∧ state? false former = some false ∧
      Orderly false latter := by
  obtain ⟨before, rest, split, passed, onward, _, ordered, _⟩ :=
    spares.places preferred (orderly_sources tokens) annotates.sourced
  exact exists_copy annotates split passed onward ordered filled plain ahead unbroken

/-- The same, where another plain character follows the match, and no seam is before that one. -/
theorem Spares.copies_before {neat : List Char → Prop} {expression : Expr}
    (spares : Spares neat expression) (annotates : Annotates tokens source text)
    (preferred : (expression.ends origin).head? = some ended) {stretch rest : List Char}
    (plain : ∀ character ∈ stretch, character ≠ '<' ∧ character ≠ '&')
    (ahead : origin.after = stretch ++ ended.after) {next : Char}
    (unescaped : next ≠ '<' ∧ next ≠ '&') (follows : ended.after = next :: rest)
    (unbroken : ∀ seam ∈ seams 0 tokens, seam ≤ origin.index ∨ ended.index < seam) :
    ∃ former latter, ∃ begun last : Cursor text, tokens = former ++ latter ∧
      Twin former latter begun origin ∧ state? false former = some false ∧
      begun.after = stretch ++ last.after ∧ last.after.head? = some next ∧
      sourceCount tokens last.index = ended.index := by
  obtain ⟨beyond, same, number⟩ :=
    Cursor.exists_behind (show ended.after = [next] ++ rest from follows)
  have longer : origin.after = (stretch ++ [next]) ++ beyond.after := by
    rw [ahead, follows, same]
    simp
  have both : ∀ character ∈ stretch ++ [next], character ≠ '<' ∧ character ≠ '&' := by
    intro character listed
    rcases List.mem_append.mp listed with inside | single
    · exact plain character inside
    · exact List.mem_singleton.mp single ▸ unescaped
  obtain ⟨former, latter, begun, behind, rfl, twin, _, passed, outside, ordered⟩ :=
    spares.copies annotates preferred (by simp) both longer fun seam listed => by
      have bounds := unbroken seam listed
      rw [number, List.length_singleton]
      omega
  have onward : begun.after = stretch ++ next :: behind.after := by
    rw [passed]
    simp
  obtain ⟨last, rest, _⟩ := Cursor.exists_behind onward
  have led : begun.after = stretch ++ last.after := by rw [onward, rest]
  refine ⟨former, _, begun, last, rfl, twin, outside, led, by rw [rest]; rfl, ?_⟩
  rw [twin.level (orderly_append_iff.mpr ⟨false, orderly_source _, ordered⟩) plain led,
    Cursor.index_of_after ahead]

/-- Where plain characters of the source begin with one that is ahead at no guarded place, and no
seam comes between them, they stand in one piece in the annotated text. -/
theorem Foreign.copies {first : Char} (foreign : Foreign first)
    (annotates : Annotates tokens source text) {others : List Char}
    (plain : ∀ character ∈ first :: others, character ≠ '<' ∧ character ≠ '&')
    {reached : Cursor source} (ahead : origin.after = (first :: others) ++ reached.after)
    (unbroken : ∀ seam ∈ seams 0 tokens, seam ≤ origin.index ∨ reached.index ≤ seam) :
    ∃ begun behind : Cursor text, begun.after = (first :: others) ++ behind.after ∧
      sourceCount tokens begun.index = origin.index ∧
      sourceCount tokens behind.index = reached.index := by
  have cut : written (sources tokens) = origin.before.reverse ++ first :: (others ++ reached.after) := by
    rw [annotates.sourced, ← List.cons_append, ← ahead, origin.spans]
  obtain ⟨before, rest, split, single, passed, onward, _, ordered⟩ :=
    foreign_source (orderly_sources tokens) foreign (plain first List.mem_cons_self) cut
  have following : written (.source first :: rest) = origin.after := by
    rw [written_cons, single, onward, ahead]
    rfl
  obtain ⟨former, latter, begun, behind, rfl, twin, further, led, _, _⟩ :=
    exists_copy annotates split passed following (orderly_cons_iff.mpr ⟨false, rfl, ordered⟩)
      (List.cons_ne_nil first others) plain ahead unbroken
  refine ⟨begun, behind, led, twin.count, ?_⟩
  rw [← List.append_assoc]
  exact further.count

/-- Plain characters that begin with one that is ahead at no guarded place are characters of the
source, wherever they come. -/
theorem Foreign.origins {first : Char} (foreign : Foreign first)
    (annotates : Annotates tokens source text) {others : List Char}
    (plain : ∀ character ∈ first :: others, character ≠ '<' ∧ character ≠ '&')
    (ahead : place.after = (first :: others) ++ last.after) :
    ∃ origin reached : Cursor source, origin.after = (first :: others) ++ reached.after ∧
      origin.index = sourceCount tokens place.index ∧
      reached.index = sourceCount tokens last.index := by
  have cut : written tokens = place.before.reverse ++ first :: (others ++ last.after) := by
    rw [annotates.same, ← List.cons_append, ← ahead, place.spans]
  obtain ⟨former, latter, rfl, single, passed, behind, _, ordered⟩ :=
    foreign_source annotates.orderly foreign (plain first List.mem_cons_self) cut
  have following : written (.source first :: latter) = place.after := by
    rw [written_cons, single, behind, ahead]
    rfl
  obtain ⟨origin, twin⟩ := exists_origin passed following annotates.sourced
  have outside : Orderly false (.source first :: latter) :=
    orderly_cons_iff.mpr ⟨false, rfl, ordered⟩
  obtain ⟨more, reached, pieces, led, further, _, _⟩ := twin.onward outside plain ahead
  refine ⟨origin, reached, led, twin.count.symm, ?_⟩
  rw [pieces, ← List.append_assoc]
  exact further.count.symm

/-! ### Seams -/

/-- What is allowed at seams, said of the places of the source. -/
theorem seamed_iff {allowed : Nat → Option Char → Option Char → Prop}
    (sourced : written (sources tokens) = source) :
    Seamed allowed tokens ↔ ∀ origin : Cursor source, origin.index ∈ seams 0 tokens →
      allowed origin.index origin.before.head? origin.after.head? := by
  constructor
  · intro seamed origin seam
    have holds := seamed origin.before.reverse origin.after (sourced.trans origin.spans.symm)
      (by rwa [List.length_reverse, ← origin.counts])
    rwa [List.length_reverse, ← origin.counts, List.getLast?_reverse] at holds
  · intro seamed before after cut seam
    obtain ⟨origin, rfl, rfl⟩ : ∃ origin : Cursor source, before = origin.before.reverse ∧
        after = origin.after := exists_cursor (cut.symm.trans sourced)
    rw [List.length_reverse, ← origin.counts] at seam ⊢
    rw [List.getLast?_reverse]
    exact seamed origin seam

/-- Where preferred matches of the expression begin and end, the characters before and behind
fulfil the condition. -/
def Edged (edge : Option Char → Option Char → Prop) (expression : Expr) : Prop :=
  ∀ {text : List Char} {first last : Cursor text}, (expression.ends first).head? = some last →
    edge first.before.head? first.after.head? ∧ edge last.before.head? last.after.head?

variable {neat : List Char → Prop} {expression : Expr} {hits : List (Cursor text × Cursor text)}
  {found : List Found} {rest : List Char} {result : List Token}
  {allowed : Nat → Option Char → Option Char → Prop}

/-- Marking keeps what is known of the seams if the ends of the matches are so.

Proof: a new seam is where a match begins or ends. If there has been no seam, the characters there
are those of the source. -/
theorem Seamed.edged {edge : Option Char → Option Char → Prop} (seamed : Seamed allowed tokens)
    (edged : Edged edge expression)
    (implied : ∀ index last next, edge last next → allowed index last next)
    (spares : Spares neat expression) (annotates : Annotates tokens source text)
    (scanned : Hits expression (Cursor.start text) hits found rest)
    (kept : written (sources result) = source)
    (edges : ∀ seam, seam ∈ seams 0 result ↔ seam ∈ seams 0 tokens ∨
      ∃ hit ∈ hits, seam = sourceCount tokens hit.1.index ∨
        seam = sourceCount tokens hit.2.index) :
    Seamed allowed result := by
  have before := (seamed_iff annotates.sourced).mp seamed
  have fresh {former latter : List Token} {place : Cursor text} {origin : Cursor source}
      (holds : edge place.before.head? place.after.head?) (split : tokens = former ++ latter)
      (twin : Twin former latter place origin) :
      allowed origin.index origin.before.head? origin.after.head? := by
    rcases twin.seam_or_neighbors with old | ⟨last, next⟩
    · exact before origin (split ▸ old)
    · rw [last, next] at holds
      exact implied _ _ _ holds
  refine (seamed_iff kept).mpr fun origin seam => ?_
  rcases (edges origin.index).mp seam with old | ⟨hit, listed, new⟩
  · exact before origin old
  · obtain ⟨preferred, _, _⟩ := scanned.preferred spares.tame hit listed
    obtain ⟨begins, ends⟩ := edged preferred
    obtain ⟨former, covered, latter, begun, ended, split, first, second, _, _⟩ :=
      spares.twins annotates preferred
    have third : tokens = former ++ covered ++ latter := by rw [split, List.append_assoc]
    rcases new with here | here
    · rw [split, first.count] at here
      rw [Cursor.eq_of_index here]
      exact fresh begins split first
    · rw [third, second.count] at here
      rw [Cursor.eq_of_index here]
      exact fresh ends third second

end Highlighter.Markup

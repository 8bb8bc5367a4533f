import Highlighter.Proofs.Dart.Edges
import Highlighter.Proofs.Dart.Overlaps

/-!
# Matches in annotated text and in its source

A match of a keyword, a call, a number or a comment in annotated text is one of the source, as far
as its begin is concerned. The other way round, a match of the source is one of the annotated text
if no seam breaks it. What has to be known of the seams differs from pattern to pattern; that none
is inside of a word is asked for by all but comments.
-/

namespace Highlighter.Dart

open Text (Cursor)
open Regex (Expr Found Hits Mirrors)
open Regex.Assertion (startsWithWord)
open Markup

variable {tokens : List Token} {source text : List Char} {first last : Cursor text}
  {origin ended : Cursor source}

/-! ### Numbers -/

/-- Digits and periods are in no tag and in no entity. -/
theorem plain_of_numeric {character : Char} (numeric : isNumeric character) :
    character ≠ '<' ∧ character ≠ '&' := by
  have apart : isNumeric '<' = false ∧ isNumeric '&' = false := by decide
  constructor <;> rintro rfl
  · rw [apart.1] at numeric
    cases numeric
  · rw [apart.2] at numeric
    cases numeric

/-- A number consists of digits and periods. -/
theorem NumberSpan.numeric {after rest : List Char} (span : NumberSpan after rest) :
    ∃ stretch, after = stretch ++ rest ∧ stretch ≠ [] ∧ ∀ character ∈ stretch, isNumeric character := by
  have numeric {character : Char} (digit : isDigit character) : isNumeric character := by
    rw [isNumeric, digit, Bool.true_or]
  cases span with
  | @point whole fraction _ digits further ended =>
    refine ⟨whole ++ '.' :: fraction, by simp, by simp, fun character listed => ?_⟩
    rcases List.mem_append.mp listed with inside | behind
    · exact numeric (digits.2 character inside)
    · rcases List.mem_cons.mp behind with rfl | inside
      · decide
      · exact numeric (further.2 character inside)
  | whole digits ended alone =>
    exact ⟨_, rfl, digits.1, fun character listed => numeric (digits.2 character listed)⟩

/-- Where a number begins in the annotated text, one begins in the source. -/
theorem number_in_source (whole : Whole Unicode.isWord tokens)
    (annotates : Annotates tokens source text)
    (preferred : (numbers.ends first).head? = some last) :
    ∃ begun reached : Cursor source, begun.index = sourceCount tokens first.index ∧
      (numbers.ends begun).head? = some reached ∧
      sourceCount tokens (first.index + 1) = begun.index + 1 ∧
      sourceCount tokens last.index = begun.index + (last.index - first.index) := by
  obtain ⟨former, covered, latter, begun, _, rfl, twin, _, outside, ordered⟩ :=
    spares_numbers.twins annotates preferred
  obtain ⟨before, span⟩ := number_of_preferred preferred
  obtain ⟨stretch, passed, filled, numeric⟩ := span.numeric
  obtain ⟨digits, others, within, stops, ahead⟩ := span.digits
  obtain ⟨middle, rest, _⟩ := Cursor.exists_behind ahead
  rw [← rest] at ahead stops
  have word : digits.getLast?.any Unicode.isWord := by
    rw [List.getLast?_eq_some_getLast within.1]
    exact Unicode.isWord_of_isDigit (within.2 _ (List.getLast_mem within.1))
  have digit : ∀ character ∈ digits, isNumeric character := by
    intro character listed
    rw [isNumeric, within.2 character listed, Bool.true_or]
  obtain ⟨reached, split, goesOn⟩ := twin.words_behind whole ordered
    (fun character listed => plain_of_numeric (digit character listed)) word ahead
  have starts : startsWithWord begun.after := by
    rw [split]
    exact within.starts _
  rw [twin.word_before whole outside starts] at before
  obtain ⟨final, found⟩ := exists_number before within (goesOn ▸ stops) split
  have plain := fun character listed => plain_of_numeric (numeric character listed)
  refine ⟨begun, final, twin.count.symm, found, ?_, ?_⟩
  · obtain ⟨initial, others, rfl⟩ := List.exists_cons_of_ne_nil filled
    exact twin.moves ordered (plain initial List.mem_cons_self) passed
  · rw [twin.level ordered plain passed, Cursor.index_of_after passed, Nat.add_sub_cancel_left]

/-- A number of the source without seams inside is a number of the annotated text. -/
theorem number_of_source (whole : Whole Unicode.isWord tokens)
    (annotates : Annotates tokens source text)
    (preferred : (numbers.ends origin).head? = some ended)
    (unbroken : ∀ seam ∈ seams 0 tokens, seam ≤ origin.index ∨ ended.index ≤ seam) :
    ∃ first last : Cursor text, (numbers.ends first).head? = some last ∧
      sourceCount tokens first.index = origin.index ∧
      sourceCount tokens last.index = ended.index := by
  obtain ⟨before, span⟩ := number_of_preferred preferred
  obtain ⟨_, begins, ends, _⟩ := number_edges preferred
  obtain ⟨stretch, passed, filled, numeric⟩ := span.numeric
  have plain := fun character listed => plain_of_numeric (numeric character listed)
  obtain ⟨former, latter, begun, behind, rfl, twin, further, ahead, outside, ordered⟩ :=
    spares_numbers.copies annotates preferred filled plain passed unbroken
  have wholly : Whole Unicode.isWord (former ++ stretch.map Token.source ++ latter) := by
    rwa [List.append_assoc]
  have starts : startsWithWord origin.after := by
    obtain ⟨digits, others, within, _, split⟩ := span.digits
    rw [split]
    exact within.starts _
  have word : startsWithWord ended.before := by
    cases final : ended.before with
    | nil =>
      rw [final] at ends
      cases ends
    | cons digit others =>
      rw [final] at ends
      exact Unicode.isWord_of_isDigit ends
  have goesOn := further.word_after wholly ordered word
  refine ⟨begun, behind, preferred_of_number ?_ ?_, twin.count, ?_⟩
  · rw [twin.word_before whole outside starts, before]
  · rw [passed] at span
    rw [ahead]
    refine span.moved goesOn fun fraction more dotted digits => ?_
    have pointed : ∀ character ∈ '.' :: fraction, isNumeric character := by
      intro character listed
      rcases List.mem_cons.mp listed with rfl | inside
      · decide
      · rw [isNumeric, digits.2 character inside, Bool.true_or]
    obtain ⟨beyond, same, _⟩ :=
      Cursor.exists_behind (show behind.after = ('.' :: fraction) ++ more from dotted)
    have lastDigit : ('.' :: fraction).getLast?.any Unicode.isWord := by
      rw [List.getLast?_cons_of_ne_nil digits.1, List.getLast?_eq_some_getLast digits.1]
      exact Unicode.isWord_of_isDigit (digits.2 _ (List.getLast_mem digits.1))
    obtain ⟨reached, split, alike⟩ := further.words_behind wholly ordered
      (fun character listed => plain_of_numeric (pointed character listed)) lastDigit
      (by rw [same]; exact dotted)
    exact ⟨reached.after, split, by rw [← same, alike]⟩
  · rw [← List.append_assoc]
    exact further.count

/-- If no seam is inside of a number, the numbers of the annotated text are those of the source. -/
theorem numbers_mirror (whole : Whole Unicode.isWord tokens)
    (annotates : Annotates tokens source text) {hits : List (Cursor source × Cursor source)}
    {found : List Found} {rest : List Char}
    (scanned : Hits numbers (Cursor.start source) hits found rest)
    (unbroken : ∀ hit ∈ hits, ∀ seam ∈ seams 0 tokens, seam ≤ hit.1.index ∨ hit.2.index ≤ seam) :
    Mirrors numbers text (sourceCount tokens) (fun _ => True) hits where
  monotone := count_monotone tokens
  forward preferred := by
    obtain ⟨begun, reached, same, found, moved, _⟩ := number_in_source whole annotates preferred
    exact ⟨by omega, begun, reached, same, found, trivial⟩
  backward hit listed _ := by
    obtain ⟨preferred, _, _⟩ := scanned.preferred (by decide) hit listed
    exact number_of_source whole annotates preferred (unbroken hit listed)
  apart _ _ dropped := (dropped trivial).elim

/-! ### Keywords and calls -/

/-- Keywords are in no tag and in no entity. -/
theorem plain_of_keyword {word : Keyword} (listed : word ∈ words) {spelling : List Char}
    (spells : spelling ∈ word.spellings) :
    ∀ character ∈ spelling, character ≠ '<' ∧ character ≠ '&' := by
  intro character inside
  have sign := (spelling_signs word listed spelling spells).1 character inside
  constructor <;> rintro rfl <;> cases sign

/-- Where a keyword stands in the annotated text, it stands in the source, and there is no seam at
its end. -/
theorem keyword_in_source (whole : Whole Unicode.isWord tokens)
    (annotates : Annotates tokens source text)
    (preferred : ((keywordsExpr words).ends first).head? = some last) :
    ∃ begun reached : Cursor source, begun.index = sourceCount tokens first.index ∧
      reached.index = sourceCount tokens last.index ∧
      ((keywordsExpr words).ends begun).head? = some reached ∧ reached.index ∉ seams 0 tokens := by
  obtain ⟨former, covered, latter, begun, _, rfl, twin, _, outside, ordered⟩ :=
    spares_keywords.twins annotates preferred
  obtain ⟨before, word, listed, spelling, spells, ahead, follows⟩ :=
    keyword_of_match (List.mem_of_mem_head? preferred)
  have plain := plain_of_keyword listed spells
  obtain ⟨_, begins⟩ := spelling_signs word listed spelling spells
  cases same : last.after with
  | nil =>
    rw [same] at follows
    cases follows
  | cons follower rest =>
    rw [same] at follows
    obtain ⟨reached, split, next, unbroken⟩ :=
      twin.unbroken ordered plain (plain_of_set (by decide) follows) ahead same
    have span : KeywordSpan begun.after reached.after :=
      ⟨word, listed, spelling, spells, split, by rw [next]; exact follows⟩
    rw [twin.word_before whole outside span.starts] at before
    have number := Cursor.index_of_after split
    refine ⟨begun, reached, twin.count.symm, ?_, preferred_of_keyword before span, fun seam => ?_⟩
    · rw [twin.level ordered plain ahead, number]
    · have filled : 0 < spelling.length := by
        cases spelling with
        | nil => cases begins
        | cons letter others => exact Nat.succ_pos _
      have bounds := unbroken _ seam
      omega

/-- A keyword of the source without seams inside of it or at its end is a keyword of the annotated
text. -/
theorem keyword_of_source (whole : Whole Unicode.isWord tokens)
    (annotates : Annotates tokens source text)
    (preferred : ((keywordsExpr words).ends origin).head? = some ended)
    (unbroken : ∀ seam ∈ seams 0 tokens, seam ≤ origin.index ∨ ended.index < seam) :
    ∃ first last : Cursor text, ((keywordsExpr words).ends first).head? = some last ∧
      sourceCount tokens first.index = origin.index ∧
      sourceCount tokens last.index = ended.index := by
  obtain ⟨before, span⟩ := keyword_of_match (List.mem_of_mem_head? preferred)
  have starts := span.starts
  obtain ⟨word, listed, spelling, spells, ahead, follows⟩ := span
  cases same : ended.after with
  | nil =>
    rw [same] at follows
    cases follows
  | cons follower rest =>
    rw [same] at follows
    obtain ⟨former, latter, begun, last, rfl, twin, outside, led, next, counted⟩ :=
      spares_keywords.copies_before annotates preferred (plain_of_keyword listed spells) ahead
        (plain_of_set (by decide) follows) same unbroken
    refine ⟨begun, last, preferred_of_keyword ?_ ?_, twin.count, counted⟩
    · rw [twin.word_before whole outside starts, before]
    · exact ⟨word, listed, spelling, spells, led, by rw [next]; exact follows⟩

/-- A call is one behind which something else comes, if this is a parenthesis. -/
theorem CallSpan.moved {stretch rest other : List Char} (span : CallSpan (stretch ++ rest) rest)
    (next : other.head? = some '(') : CallSpan (stretch ++ other) other := by
  obtain ⟨further, rfl⟩ : ∃ further, other = '(' :: further := by
    cases other with
    | nil => cases next
    | cons first others => exact ⟨others, by rw [Option.some.inj next]⟩
  generalize same : stretch ++ rest = after at span
  cases span with
  | @call first name blanks rest begins word blank =>
    have split : stretch ++ '(' :: rest = (first :: (name ++ blanks)) ++ '(' :: rest := by
      rw [same, List.cons_append, List.append_assoc]
    rw [List.append_cancel_right split, List.cons_append, List.append_assoc]
    exact .call begins word blank

/-- Names and blanks are in no tag and in no entity. -/
theorem plain_of_call {name blanks : List Char} (word : ∀ character ∈ name, Unicode.isWord character)
    (blank : ∀ character ∈ blanks, character = ' ') :
    ∀ character ∈ name ++ blanks, character ≠ '<' ∧ character ≠ '&' := by
  have apart : Unicode.isWord '<' = false ∧ Unicode.isWord '&' = false := by decide
  intro character listed
  rcases List.mem_append.mp listed with inside | behind
  · have holds := word character inside
    constructor <;> rintro rfl
    · rw [apart.1] at holds
      cases holds
    · rw [apart.2] at holds
      cases holds
  · obtain rfl := blank character behind
    decide

/-- Where a call stands in the annotated text, it stands in the source, and no seam is inside of it
or at its end. -/
theorem call_in_source (whole : Whole Unicode.isWord tokens)
    (annotates : Annotates tokens source text)
    (preferred : (functions.ends first).head? = some last) :
    ∃ begun reached : Cursor source, begun.index = sourceCount tokens first.index ∧
      (functions.ends begun).head? = some reached ∧
      sourceCount tokens (first.index + 1) = begun.index + 1 ∧
      sourceCount tokens last.index = begun.index + (last.index - first.index) ∧
      ∀ seam ∈ seams 0 tokens, seam ≤ begun.index ∨ reached.index < seam := by
  obtain ⟨former, covered, latter, begun, _, rfl, twin, _, outside, ordered⟩ :=
    spares_functions.twins annotates preferred
  obtain ⟨before, span⟩ := call_of_match (List.mem_of_mem_head? preferred)
  obtain ⟨name, blanks, ahead, filled, word, blank, rest, parenthesis⟩ := call_parts preferred
  have plain := plain_of_call word blank
  obtain ⟨reached, split, next, unbroken⟩ :=
    twin.unbroken ordered plain (by decide) ahead parenthesis
  rw [ahead] at span
  have moved := span.moved next
  rw [← split] at moved
  have starts : startsWithWord begun.after := by
    rw [split, List.append_assoc]
    exact starts_of_words filled word _
  rw [twin.word_before whole outside starts] at before
  refine ⟨begun, reached, twin.count.symm, preferred_of_call before moved, ?_, ?_, unbroken⟩
  · obtain ⟨initial, others, rfl⟩ := List.exists_cons_of_ne_nil filled
    exact twin.moves ordered (plain initial List.mem_cons_self) ahead
  · rw [twin.level ordered plain ahead, Cursor.index_of_after ahead, Nat.add_sub_cancel_left]

/-- A call of the source without seams inside of it or at its end is a call of the annotated
text. -/
theorem call_of_source (whole : Whole Unicode.isWord tokens)
    (annotates : Annotates tokens source text)
    (preferred : (functions.ends origin).head? = some ended)
    (unbroken : ∀ seam ∈ seams 0 tokens, seam ≤ origin.index ∨ ended.index < seam) :
    ∃ first last : Cursor text, (functions.ends first).head? = some last ∧
      sourceCount tokens first.index = origin.index ∧
      sourceCount tokens last.index = ended.index := by
  obtain ⟨before, span⟩ := call_of_match (List.mem_of_mem_head? preferred)
  obtain ⟨name, blanks, passed, filled, word, blank, rest, parenthesis⟩ := call_parts preferred
  obtain ⟨former, latter, begun, last, rfl, twin, outside, led, next, counted⟩ :=
    spares_functions.copies_before annotates preferred (plain_of_call word blank) passed (by decide)
      parenthesis unbroken
  have starts : startsWithWord origin.after := by
    rw [passed, List.append_assoc]
    exact starts_of_words filled word _
  refine ⟨begun, last, preferred_of_call ?_ ?_, twin.count, counted⟩
  · rw [twin.word_before whole outside starts, before]
  · rw [passed] at span
    rw [led]
    exact span.moved next

/-- Where markup stands in front of the pass over functions: where keywords begin and end, and
beside quotes. -/
def FunctionsFree (keywords : List (Cursor source × Cursor source)) (tokens : List Token) : Prop :=
  Seamed (fun index last next =>
    (∃ keyword ∈ keywords, index = keyword.1.index ∨ index = keyword.2.index) ∨
      last.any isQuote ∨ next.any isQuote) tokens

/-- Then no seam is inside of a call, or at its end, unless a keyword begins with it. -/
theorem FunctionsFree.unbroken {keywords : List (Cursor source × Cursor source)}
    (seamed : FunctionsFree keywords tokens) (annotates : Annotates tokens source text)
    (spelled : ∀ keyword ∈ keywords, ((keywordsExpr words).ends keyword.1).head? = some keyword.2)
    (preferred : (functions.ends origin).head? = some ended)
    (kept : ∀ keyword ∈ keywords, keyword.1.index ≠ origin.index) :
    ∀ seam ∈ seams 0 tokens, seam ≤ origin.index ∨ ended.index < seam := by
  intro seam listed
  by_contra within
  have begins : origin.index < seam := by omega
  have ends : seam ≤ ended.index := by omega
  let inner : Cursor source := .ofIndex source seam (Nat.le_trans ends ended.index_le_length)
  obtain ⟨name, blanks, ahead, filled, word, blank, rest, parenthesis⟩ := call_parts preferred
  have quoteless : ∀ character ∈ name ++ blanks, isQuote character = false := by
    have apart : Unicode.isWord '\'' = false ∧ Unicode.isWord '"' = false := by decide
    intro character member
    rcases List.mem_append.mp member with inside | behind
    · cases quote : isQuote character with
      | false => rfl
      | true =>
        have excluded := quote_excluded apart.1 apart.2 character quote
        rw [word character inside] at excluded
        cases excluded
    · rw [blank character behind]
      decide
  obtain ⟨former, latter, split, passed, onward, length⟩ :=
    exists_parts inner ahead (Nat.le_of_lt begins) ends
  rw [split] at quoteless
  rcases (seamed_iff annotates.sourced).mp seamed inner listed with
    ⟨keyword, among, here | there⟩ | last | next
  · obtain ⟨before, span⟩ := keyword_of_match (List.mem_of_mem_head? (spelled keyword among))
    have same : keyword.1 = inner := Cursor.eq_of_index here.symm
    rw [same] at before span
    rw [call_unentered preferred begins ends span.starts] at before
    cases before
  · have same : keyword.2 = inner := Cursor.eq_of_index there.symm
    have meets := keyword_begins_call (spelled keyword among) preferred (same ▸ begins) (same ▸ ends)
    exact kept keyword among (by rw [meets])
  · have filled : former ≠ [] := by
      rintro rfl
      change 0 = seam - origin.index at length
      omega
    rw [Cursor.last_of_stretch filled passed, List.getLast?_eq_some_getLast filled] at last
    have quote := quoteless _ (List.mem_append_left _ (List.getLast_mem filled))
    rw [Option.any_some, quote] at last
    cases last
  · cases latter with
    | nil =>
      rw [onward, parenthesis] at next
      cases next
    | cons first others =>
      rw [onward] at next
      have quote := quoteless first (List.mem_append_right _ List.mem_cons_self)
      rw [List.cons_append, List.head?_cons, Option.any_some, quote] at next
      cases next

/-- If only keywords and literals have been marked, the calls of the annotated text are those of the
source with which no keyword begins. -/
theorem functions_mirror (whole : Whole Unicode.isWord tokens)
    (annotates : Annotates tokens source text) {hits keywords : List (Cursor source × Cursor source)}
    {found : List Found} {rest : List Char}
    (scanned : Hits functions (Cursor.start source) hits found rest)
    (spelled : ∀ keyword ∈ keywords, ((keywordsExpr words).ends keyword.1).head? = some keyword.2)
    (closed : ∀ keyword ∈ keywords, keyword.2.index ∈ seams 0 tokens)
    (seamed : FunctionsFree keywords tokens) :
    Mirrors functions text (sourceCount tokens)
      (fun begun => ∀ keyword ∈ keywords, keyword.1.index ≠ begun.index) hits where
  monotone := count_monotone tokens
  forward preferred := by
    obtain ⟨begun, reached, same, found, moved, _, unbroken⟩ :=
      call_in_source whole annotates preferred
    refine ⟨by omega, begun, reached, same, found, fun keyword listed meets => ?_⟩
    have spelling := spelled keyword listed
    rw [Cursor.eq_of_index meets] at spelling
    have within := keyword_within_call spelling found
    have bounds := unbroken _ (closed keyword listed)
    omega
  backward hit listed kept := by
    obtain ⟨preferred, _, _⟩ := scanned.preferred (by decide) hit listed
    exact call_of_source whole annotates preferred
      (seamed.unbroken annotates spelled preferred kept)
  apart hit listed _ inner ended called _ begins := by
    obtain ⟨preferred, _, _⟩ := scanned.preferred (by decide) hit listed
    exact call_apart preferred called begins

/-! ### Comments -/

/-- The signs of comments are in no entity, and none of them begins a tag. -/
theorem plain_of_comment_sign {character : Char} (sign : isCommentSign character) :
    character ≠ '<' ∧ character ≠ '&' := by
  constructor <;> rintro rfl <;> cases sign

/-- No seam is between two signs of a comment. -/
theorem pair_unbroken (whole : Whole isCommentSign tokens) (annotates : Annotates tokens source text)
    {first second : Char} (begins : isCommentSign first) (ends : isCommentSign second)
    (ahead : origin.after = [first, second] ++ ended.after) :
    ∀ seam ∈ seams 0 tokens, seam ≤ origin.index ∨ ended.index ≤ seam := by
  intro seam listed
  by_contra within
  have length : ended.index = origin.index + 2 := Cursor.index_of_after ahead
  obtain ⟨middle, rest, number⟩ :=
    Cursor.exists_behind (show origin.after = [first] ++ (second :: ended.after) from ahead)
  have here : seam = middle.index := by
    rw [number, List.length_singleton]
    omega
  have passed : origin.after = [first] ++ middle.after := by rw [ahead, rest]; rfl
  have parted := (seamed_iff annotates.sourced).mp whole middle (here ▸ listed)
  rw [Cursor.last_of_stretch (List.cons_ne_nil _ _) passed, rest] at parted
  rcases parted with last | next
  · exact absurd begins (by simpa using last)
  · exact absurd ends (by simpa using next)

/-- Two places whose counts of source characters are in order are so themselves. -/
theorem lt_of_count_lt {index other : Nat}
    (fewer : sourceCount tokens index < sourceCount tokens other) : index < other := by
  by_contra behind
  have counts := count_monotone tokens (Nat.le_of_not_lt behind)
  omega

/-- What comes between two places, one of them further on. -/
theorem exists_stretch {text : List Char} {former latter : Cursor text}
    (inOrder : former.index ≤ latter.index) :
    ∃ stretch, former.after = stretch ++ latter.after ∧
      stretch.length = latter.index - former.index :=
  ⟨former.slice latter, (Cursor.slice_append_after inOrder).symm, Cursor.length_slice inOrder⟩

/-- The end of a comment in the source is one in the annotated text. -/
theorem comment_end_of_source (whole : Whole isCommentSign tokens)
    (annotates : Annotates tokens source text) (ahead : origin.after = ['*', '/'] ++ ended.after) :
    ∃ place behind : Cursor text, place.after = ['*', '/'] ++ behind.after ∧
      sourceCount tokens place.index = origin.index := by
  have foreign : Foreign '*' := by decide
  obtain ⟨place, behind, led, counted, _⟩ := foreign.copies annotates (by decide) ahead
    (pair_unbroken whole annotates (by decide) (by decide) ahead)
  exact ⟨place, behind, led, counted⟩

/-- The place in annotated text belongs to the one in the source, and none before it does. -/
structure Earliest (tokens : List Token) (place : Cursor text) (begun : Cursor source) : Prop where
  count : sourceCount tokens place.index = begun.index
  least : ∀ index, begun.index ≤ sourceCount tokens index → place.index ≤ index

/-- The source has as many characters between two places as the counts tell. -/
theorem Earliest.exists_stretch {place : Cursor text} {begun reached : Cursor source}
    (earliest : Earliest tokens place begun) (inOrder : place.index ≤ last.index)
    (ends : sourceCount tokens last.index = reached.index) :
    ∃ inner, begun.after = inner ++ reached.after ∧ inner.length = reached.index - begun.index := by
  refine Dart.exists_stretch ?_
  rw [← earliest.count, ← ends]
  exact count_monotone _ inOrder

/-- A line of a comment in annotated text is one in the source: a line feed inside of it would be
inside of it in the annotated text, too. -/
theorem line_in_source (annotates : Annotates tokens source text) {middle : Cursor text}
    {second reached : Cursor source} (begins : Earliest tokens middle second)
    (ends : sourceCount tokens last.index = reached.index)
    (atEnd : last.after = [] → reached.after = []) {stretch : List Char}
    (passed : middle.after = stretch ++ last.after) (within : '\n' ∉ stretch)
    (ended : last.after.head?.all (· = '\n')) :
    CommentSpan ('/' :: '/' :: second.after) reached.after := by
  have foreign : Foreign '\n' := by decide
  have length := Cursor.index_of_after passed
  obtain ⟨inner, between, extent⟩ := begins.exists_stretch (by omega) ends
  rw [between]
  refine .line (fun feed => ?_) ?_
  · obtain ⟨former, latter, rfl⟩ := List.append_of_mem feed
    rw [List.append_assoc] at between
    obtain ⟨here, follows, index⟩ := Cursor.exists_behind between
    obtain ⟨beyond, same, next⟩ :=
      Cursor.exists_behind (show here.after = ['\n'] ++ (latter ++ reached.after) from follows)
    have single : here.after = ['\n'] ++ beyond.after := by rw [follows, same]; rfl
    obtain ⟨place, behind, led, counted, _⟩ :=
      foreign.copies annotates (by decide) single fun seam _ => by
        rw [next, List.length_singleton]
        omega
    rw [List.length_append, List.length_cons] at extent
    have early : middle.index ≤ place.index := begins.least _ (by omega)
    have late : place.index < last.index := lt_of_count_lt (by rw [counted, ends]; omega)
    obtain ⟨_, remaining, rfl, _, onwards, _⟩ := exists_parts place passed early (by omega)
    rw [led] at onwards
    cases remaining with
    | nil =>
      have same : place = last := Cursor.eq_of_after (by rw [led, onwards]; rfl)
      rw [same] at late
      omega
    | cons character others =>
      obtain ⟨rfl, _⟩ := List.cons.inj onwards
      exact within (List.mem_append_right _ List.mem_cons_self)
  · cases rest : last.after with
    | nil =>
      rw [atEnd rest]
      rfl
    | cons next others =>
      rw [rest] at ended
      obtain rfl : next = '\n' := of_decide_eq_true ended
      obtain ⟨beyond, same, _⟩ :=
        Cursor.exists_behind (show last.after = ['\n'] ++ others from rest)
      obtain ⟨here, _, follows, index, _⟩ := foreign.origins annotates (by decide)
        (show last.after = ['\n'] ++ beyond.after by rw [rest, same]; rfl)
      rw [← Cursor.eq_of_index (index.trans ends), follows]
      rfl

/-- A comment of several lines in annotated text is one in the source: an earlier end would be one in
the annotated text, too. -/
theorem long_in_source (whole : Whole isCommentSign tokens)
    (annotates : Annotates tokens source text) {middle : Cursor text} {second reached : Cursor source}
    (begins : Earliest tokens middle second) (ends : sourceCount tokens last.index = reached.index)
    {stretch : List Char} (onward : middle.after = stretch ++ '*' :: '/' :: last.after)
    (earliest : ∀ former latter,
      stretch ++ '*' :: '/' :: last.after = former ++ '*' :: '/' :: latter →
        stretch.length ≤ former.length) :
    CommentSpan ('/' :: '*' :: second.after) reached.after := by
  obtain ⟨final, closes, length⟩ := Cursor.exists_behind onward
  have foreign : Foreign '*' := by decide
  obtain ⟨here, beyond, follows, index, next⟩ := foreign.origins annotates
    (by decide) (show final.after = ['*', '/'] ++ last.after from closes)
  obtain rfl : beyond = reached := Cursor.eq_of_index (next.trans ends)
  obtain ⟨inner, between, extent⟩ := begins.exists_stretch (by omega) index.symm
  rw [between, follows]
  refine .long fun earlier remaining same => ?_
  by_contra short
  have cut : second.after = earlier ++ '*' :: '/' :: remaining := by rw [between, follows]; exact same
  obtain ⟨other, ends, position⟩ := Cursor.exists_behind cut
  obtain ⟨further, same, _⟩ :=
    Cursor.exists_behind (show other.after = ['*', '/'] ++ remaining from ends)
  obtain ⟨place, _, led, counted⟩ := comment_end_of_source whole annotates
    (show other.after = ['*', '/'] ++ further.after by rw [ends, same]; rfl)
  have early : middle.index ≤ place.index := begins.least _ (by omega)
  have late : place.index < final.index := lt_of_count_lt (by rw [counted, ← index]; omega)
  obtain ⟨gap, passed, taken⟩ := Dart.exists_stretch early
  rw [onward, led] at passed
  have bound := earliest gap _ passed
  omega

/-- A comment of the annotated text is one of the source, from its begin to its end.

Proof: behind the two signs that begin the comment, both texts go on from places that belong
together. -/
theorem comment_in_source (whole : Whole isCommentSign tokens)
    (annotates : Annotates tokens source text)
    (preferred : (comments.ends first).head? = some last) :
    ∃ begun reached : Cursor source, begun.index = sourceCount tokens first.index ∧
      reached.index = sourceCount tokens last.index ∧ (comments.ends begun).head? = some reached ∧
      sourceCount tokens (first.index + 1) = begun.index + 1 := by
  obtain ⟨former, covered, latter, begun, reached, rfl, twin, behind, _, ordered⟩ :=
    spares_comments.twins annotates preferred
  have ending : sourceCount (former ++ (covered ++ latter)) last.index = reached.index := by
    rw [← List.append_assoc]
    exact behind.count
  have opened {sign : Char} {others : List Char} (plain : isCommentSign sign)
      (ahead : first.after = '/' :: sign :: others) :
      ∃ (middle : Cursor text) (second : Cursor source), middle.after = others ∧
        begun.after = '/' :: sign :: second.after ∧
        Earliest (former ++ (covered ++ latter)) middle second ∧
        sourceCount (former ++ (covered ++ latter)) (first.index + 1) = begun.index + 1 := by
    have both : ∀ character ∈ ['/', sign], character ≠ '<' ∧ character ≠ '&' := by
      intro character listed
      rcases List.mem_pair.mp listed with rfl | rfl
      · decide
      · exact plain_of_comment_sign plain
    obtain ⟨middle, same, number⟩ :=
      Cursor.exists_behind (show first.after = ['/', sign] ++ others from ahead)
    have led : first.after = ['/', sign] ++ middle.after := by rw [ahead, same]; rfl
    obtain ⟨_, second, _, split, _⟩ := twin.onward ordered both led
    have moved := Cursor.index_of_after split
    have inside := twin.moves ordered (both '/' List.mem_cons_self) ahead
    refine ⟨middle, second, same, split, ⟨?_, fun index reached => ?_⟩, inside⟩
    · rw [twin.level ordered both led, moved]
    · have further : first.index + 1 < index :=
        lt_of_count_lt (Nat.lt_of_lt_of_le (by rw [inside, moved]; exact Nat.lt_succ_self _) reached)
      rw [number]
      exact further
  have span := comment_of_preferred preferred
  generalize ahead : first.after = after at span
  generalize rest : last.after = left at span
  cases span with
  | line within ended =>
    obtain ⟨middle, second, onward, split, begins, inside⟩ := opened (by decide) ahead
    rw [← rest] at onward ended
    have atEnd : last.after = [] → reached.after = [] := by
      intro blank
      have none : latter = [] := by
        have blank := behind.after.trans blank
        cases latter with
        | nil => rfl
        | cons token others =>
          rw [written_cons] at blank
          exact absurd (List.append_eq_nil_iff.mp blank).1 (text_ne_nil token)
      rw [← behind.sourceAfter, none]
      rfl
    have span := line_in_source annotates begins ending atEnd onward within ended
    exact ⟨begun, reached, twin.count.symm, ending.symm,
      preferred_of_comment (by rwa [split]), inside⟩
  | long earliest =>
    obtain ⟨middle, second, onward, split, begins, inside⟩ := opened (by decide) ahead
    rw [← rest] at onward earliest
    have span := long_in_source whole annotates begins ending onward earliest
    exact ⟨begun, reached, twin.count.symm, ending.symm,
      preferred_of_comment (by rwa [split]), inside⟩

/-- A comment of the source begins one of the annotated text. -/
theorem comment_of_source (whole : Whole isCommentSign tokens)
    (annotates : Annotates tokens source text)
    (preferred : (comments.ends origin).head? = some ended) :
    ∃ first last : Cursor text, (comments.ends first).head? = some last ∧
      sourceCount tokens first.index = origin.index ∧
      sourceCount tokens last.index = ended.index := by
  obtain ⟨first, last, found, begins⟩ : ∃ first last : Cursor text,
      (comments.ends first).head? = some last ∧ sourceCount tokens first.index = origin.index := by
    have opened {sign : Char} {others : List Char} (plain : isCommentSign sign)
        (ahead : origin.after = '/' :: sign :: others) :
        ∃ begun behind : Cursor text, begun.after = '/' :: sign :: behind.after ∧
          sourceCount tokens begun.index = origin.index ∧
          sourceCount tokens (begun.index + 1) = origin.index + 1 := by
      obtain ⟨reached, same, _⟩ :=
        Cursor.exists_behind (show origin.after = ['/', sign] ++ others from ahead)
      have led : origin.after = ['/', sign] ++ reached.after := by rw [ahead, same]; rfl
      obtain ⟨former, latter, begun, behind, rfl, twin, _, passed, _, ordered⟩ :=
        spares_comments.copies annotates preferred (List.cons_ne_nil _ _)
          (fun character listed => by
            rcases List.mem_pair.mp listed with rfl | rfl
            · decide
            · exact plain_of_comment_sign plain)
          led (pair_unbroken whole annotates (by decide) plain led)
      have outside := orderly_append_iff.mpr ⟨false, orderly_source ['/', sign], ordered⟩
      exact ⟨begun, behind, passed, twin.count, twin.moves outside (by decide) passed⟩
    have span := comment_of_preferred preferred
    generalize ahead : origin.after = after at span
    cases span with
    | line within ended =>
      obtain ⟨begun, behind, passed, counted, _⟩ := opened (by decide) ahead
      obtain ⟨last, found⟩ := exists_comment (.inl ⟨_, passed⟩)
      exact ⟨begun, last, found, counted⟩
    | @long stretch rest earliest =>
      obtain ⟨begun, behind, passed, counted, moved⟩ := opened (by decide) ahead
      have length := Cursor.index_of_after (show begun.after = ['/', '*'] ++ behind.after from passed)
      have split : origin.after = ('/' :: '*' :: stretch) ++ '*' :: '/' :: ended.after := by
        rw [ahead]
        simp
      obtain ⟨final, closes, number⟩ := Cursor.exists_behind split
      obtain ⟨place, beyond, led, there⟩ :=
        comment_end_of_source whole annotates (show final.after = ['*', '/'] ++ ended.after from closes)
      have late : begun.index + 1 < place.index := by
        refine lt_of_count_lt (?_ : sourceCount tokens _ < _)
        rw [moved, there, number, List.length_cons, List.length_cons]
        omega
      obtain ⟨gap, between, _⟩ := exists_stretch (show behind.index ≤ place.index from length ▸ late)
      obtain ⟨last, found⟩ := exists_comment (.inr ⟨gap, beyond.after, by
        rw [passed, between, led]
        rfl⟩)
      exact ⟨begun, last, found, counted⟩
  obtain ⟨begun, reached, same, number, again, _⟩ := comment_in_source whole annotates found
  obtain rfl : begun = origin := Cursor.eq_of_index (same.trans begins)
  obtain rfl : reached = ended := Option.some.inj (again.symm.trans preferred)
  exact ⟨first, last, found, begins, number.symm⟩

/-- If no seam is between two signs of a comment, the comments of the annotated text are those of
the source, with the markup inside of them. -/
theorem comments_mirror (whole : Whole isCommentSign tokens)
    (annotates : Annotates tokens source text) {hits : List (Cursor source × Cursor source)}
    {found : List Found} {rest : List Char}
    (scanned : Hits comments (Cursor.start source) hits found rest) :
    Mirrors comments text (sourceCount tokens) (fun _ => True) hits where
  monotone := count_monotone tokens
  forward preferred := by
    obtain ⟨begun, reached, same, _, found, moved⟩ := comment_in_source whole annotates preferred
    exact ⟨by omega, begun, reached, same, found, trivial⟩
  backward hit listed _ := by
    obtain ⟨preferred, _, _⟩ := scanned.preferred (by decide) hit listed
    exact comment_of_source whole annotates preferred
  apart _ _ dropped := (dropped trivial).elim

end Highlighter.Dart

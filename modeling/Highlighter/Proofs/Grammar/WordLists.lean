import Highlighter.Proofs.Grammar.Keywords
import Highlighter.Proofs.Grammar.KeywordSearch
import Highlighter.Proofs.Regex.Scanner
import Highlighter.Proofs.Unicode.Property

/-!
# Lists of words as patterns of keywords

For words of letters, digits and underscores of ASCII the pattern of keywords finds the listed
words themselves: wherever one of them stands in the text with no character of a word before it
and one of few signs behind it. This says all of the matches without the list as a list, so
neither the order of the words nor a word that is listed twice makes a difference.

Such a pattern compiles, however many the words are and however long. A search with it never
fills the stack, so only the limit on going back can keep a scan from its end.
-/

namespace Highlighter

open Text (Cursor byteLength)
open Regex (Expr)
open Regex.Parser (captures)
open Regex.Assertion (startsWithWord)

/-- A list of words made of letters, digits and underscores of ASCII. -/
structure PlainWords (list : List String) : Prop where
  filled : list ≠ []
  words : ∀ word ∈ list, word ≠ "" ∧ ∀ letter ∈ word.toList, Unicode.isAsciiWord letter

/-- The keyword that is spelled as the word. -/
def Keyword.ofWord (word : String) : Keyword := ⟨word.toList, false⟩

/-- What the pattern of a list of words is read as. -/
def wordsExpr (list : List String) : Expr := keywordsExpr (list.map .ofWord)

namespace PlainWords

variable {list : List String}

/-- What is asked of the list is asked of its words. -/
theorem of_same_words (plain : PlainWords list) {other : List String}
    (same : ∀ word, word ∈ other ↔ word ∈ list) : PlainWords other := by
  refine ⟨fun none => ?_, fun word listed => plain.words word ((same word).mp listed)⟩
  obtain ⟨word, others, split⟩ := List.exists_cons_of_ne_nil plain.filled
  have listed := (same word).mpr (split ▸ List.mem_cons_self)
  rw [none] at listed
  cases listed

/-- The words are made of characters of words, which no sign behind them is. -/
theorem spelled (plain : PlainWords list) :
    Keyword.Spelled (list.map .ofWord) Unicode.isAsciiWord := by
  have each {keyword : Keyword} (listed : keyword ∈ list.map .ofWord) {spelling : List Char}
      (spells : spelling ∈ keyword.spellings) :
      spelling ≠ [] ∧ ∀ letter ∈ spelling, Unicode.isAsciiWord letter := by
    obtain ⟨word, member, rfl⟩ := List.mem_map.mp listed
    obtain rfl : spelling = word.toList := List.mem_singleton.mp spells
    obtain ⟨filled, letters⟩ := plain.words word member
    exact ⟨by simpa using filled, letters⟩
  refine ⟨by simpa using plain.filled, fun word listed spelling spells => ?_,
    fun word listed spelling spells => (each listed spells).2, by decide⟩
  obtain ⟨filled, letters⟩ := each listed spells
  obtain ⟨letter, others, rfl⟩ := List.exists_cons_of_ne_nil filled
  exact Unicode.isWord_of_isAsciiWord (letters letter List.mem_cons_self)

/-- Each part of the pattern is a capture group around the letters of a word. -/
theorem exists_word {option : Expr}
    (listed : option ∈ captures 1 ((list.map .ofWord).map Keyword.parts)) :
    ∃ word ∈ list, ∃ group,
      option = .capture group (.sequences (word.toList.map fun letter => .literal letter false)) := by
  obtain ⟨parts, among, group, rfl⟩ := exists_of_mem_captures listed
  obtain ⟨keyword, member, rfl⟩ := List.mem_map.mp among
  obtain ⟨word, chosen, rfl⟩ := List.mem_map.mp member
  refine ⟨word, chosen, group, ?_⟩
  rw [Keyword.parts, Keyword.ofWord, if_neg Bool.false_ne_true, List.append_nil]

/-- There are as many alternatives as words. -/
theorem length_captures (groups : Nat) (parts : List (List Expr)) :
    (captures groups parts).length = parts.length := by
  induction parts generalizing groups with
  | nil => rfl
  | cons part others induction => simp [captures, induction]

theorem captures_filled (plain : PlainWords list) :
    captures 1 ((list.map .ofWord).map Keyword.parts) ≠ [] := by
  rw [← List.length_pos_iff, length_captures]
  simpa [List.length_pos_iff] using plain.filled

/-- Letters are tame, and so are sequences and groups of them. -/
theorem tame (plain : PlainWords list) : (wordsExpr list).tame := by
  have both (first second : Expr) (former : first.tame) (latter : second.tame) :
      (first.tame && second.tame) = true := Bool.and_eq_true_iff.mpr ⟨former, latter⟩
  have words : (Expr.alternatives (captures 1 ((list.map .ofWord).map Keyword.parts))).tame := by
    refine Expr.alternatives_of_options (fun expression => expression.tame) both
      plain.captures_filled fun option listed => ?_
    obtain ⟨word, _, group, rfl⟩ := exists_word listed
    have letters : (Expr.sequences (word.toList.map fun letter => .literal letter false)).tame := by
      refine Expr.sequences_of_parts (fun expression => expression.tame) rfl both fun part among => ?_
      obtain ⟨letter, _, rfl⟩ := List.mem_map.mp among
      rfl
    exact letters
  exact both _ _ rfl (both _ _ words rfl)

/-- A match of the words is not empty. -/
theorem consumes (plain : PlainWords list) : 0 < (wordsExpr list).minimalLength := by
  have words : 0 < (Expr.alternatives
      (captures 1 ((list.map .ofWord).map Keyword.parts))).minimalLength := by
    refine Expr.alternatives_of_options (fun option => 0 < option.minimalLength)
      (fun first second former latter => by rw [Expr.minimalLength]; omega)
      plain.captures_filled fun option listed => ?_
    obtain ⟨word, member, group, rfl⟩ := exists_word listed
    obtain ⟨letter, others, spelled⟩ :=
      List.exists_cons_of_ne_nil (by simpa using (plain.words word member).1 : word.toList ≠ [])
    rw [spelled, List.map_cons]
    cases others <;> simp [Expr.sequences, Expr.minimalLength, Expr.literal]
  change 0 < 0 + (_ + 0)
  rw [Nat.zero_add, Nat.add_zero]
  exact words

/-- The pattern of the words is read as their expression. -/
theorem read (plain : PlainWords list) : (Pattern.keywords list).ReadAs (wordsExpr list) := by
  refine ⟨keywords_read plain.spelled.filled ?_ ?_, plain.tame⟩
  · intro keyword listed
    obtain ⟨word, member, rfl⟩ := List.mem_map.mp listed
    exact (plain.words word member).2
  · rw [List.map_map]
    refine List.map_congr_left fun word _ => ?_
    exact (List.append_nil word.toList).symm

/-- The pattern of the words compiles, whatever the limit. -/
theorem compiles (plain : PlainWords list) (limit : Nat) :
    (Pattern.keywords list).compile limit =
      .ok ⟨.machine (keywordsCode (list.map .ofWord)), limit⟩ := by
  refine plain.read.compile_eq (keywords_matcher plain.spelled.filled (fun word listed => ?_)
    plain.tame) limit
  obtain ⟨text, member, rfl⟩ := List.mem_map.mp listed
  simpa [Keyword.ofWord] using (plain.words text member).1

/-- A scan with the pattern comes to the end of its text if no search exhausts the limit: the stack
has room in every text. -/
theorem scan_ended (plain : PlainWords list) {limit : Nat} {regex : Regex}
    (compiled : (Pattern.keywords list).compile limit = .ok regex) {text : List Char}
    (unspent : (regex.scan text).problem ≠ some (.exceeded .steps)) :
    (regex.scan text).problem = none := by
  have stands := plain.read.stands compiled
  obtain rfl := Except.ok.inj ((plain.compiles limit).symm.trans compiled)
  rcases Regex.scan_given_up ⟨.machine (keywordsCode (list.map .ofWord)), limit⟩ text with
    ended | ⟨cause, given, place, failed⟩
  · exact ended
  · rcases Regex.find_first stands place with
      ⟨found, searched, _⟩ | ⟨code, made, _, ⟨exhausted, _⟩ | ⟨_, full⟩⟩
    · rw [searched] at failed
      cases failed
    · obtain rfl := Except.error.inj (failed.symm.trans exhausted)
      exact absurd given unspent
    · obtain rfl := Regex.Matcher.machine.inj made
      exact absurd (keywords_roomy _ _) full

end PlainWords

/-! ### What is found -/

/-- The bytes of the span are one of the words. No character of a word comes before it, and one
of the signs that may follow a keyword stands behind it. -/
def SpansWord (list : List String) (text : List Char) (span : Nat × Nat) : Prop :=
  ∃ former word latter, text = former ++ (word ++ latter) ∧
    span = (byteLength former, byteLength (former ++ word)) ∧ String.ofList word ∈ list ∧
    former.getLast?.any Unicode.isWord = false ∧
    latter.head?.any (fun sign => sign ∈ [' ', '.', '\x7b', '[', ')', ';'])

namespace PlainWords

variable {list : List String} {text : List Char} {first last : Cursor text}

/-- The keywords of the list lead where one of its words does. -/
theorem leads_iff {after rest : List Char} : Keyword.Leads (list.map .ofWord) after rest ↔
    ∃ word, String.ofList word ∈ list ∧ after = word ++ rest ∧
      rest.head?.any (fun sign => sign ∈ [' ', '.', '\x7b', '[', ')', ';']) := by
  have follows : keywordFollowers.contains =
      fun sign => decide (sign ∈ [' ', '.', '\x7b', '[', ')', ';']) := by
    funext sign
    rw [Bool.eq_iff_iff, keyword_followers_contain, decide_eq_true_iff]
  rw [Keyword.Leads, follows]
  constructor
  · rintro ⟨keyword, listed, spelling, spells, ahead, behind⟩
    obtain ⟨word, member, rfl⟩ := List.mem_map.mp listed
    obtain rfl : spelling = word.toList := List.mem_singleton.mp spells
    exact ⟨word.toList, by rwa [String.ofList_toList], ahead, behind⟩
  · rintro ⟨word, member, ahead, behind⟩
    refine ⟨_, List.mem_map_of_mem member, word, ?_, ahead, behind⟩
    exact List.mem_singleton.mpr (String.toList_ofList).symm

/-- The spans of the listed words are those between which the expression prefers to match. -/
theorem spans_word_iff (plain : PlainWords list) {span : Nat × Nat} :
    SpansWord list text span ↔ ∃ first last : Cursor text,
      ((wordsExpr list).ends first).head? = some last ∧
        (byteLength (text.take first.index), byteLength (text.take last.index)) = span := by
  constructor
  · rintro ⟨former, word, latter, whole, rfl, listed, before, behind⟩
    let first : Cursor text :=
      ⟨former.reverse, word ++ latter, former.length, by simp [whole], by simp⟩
    have ahead : first.after = word ++ latter := rfl
    obtain ⟨last, rest, _⟩ := Cursor.exists_behind ahead
    rw [← rest] at ahead
    refine ⟨first, last, (Keyword.preferred_iff plain.spelled).mpr ⟨?_, ?_⟩, ?_⟩
    · rw [startsWithWord, List.head?_reverse]
      exact before
    · exact leads_iff.mpr ⟨word, listed, ahead, by rw [rest]; exact behind⟩
    · rw [← first.before_take, ← last.before_take, Cursor.before_of_after ahead]
      simp [first]
  · rintro ⟨first, last, preferred, rfl⟩
    obtain ⟨before, leads⟩ := (Keyword.preferred_iff plain.spelled).mp preferred
    obtain ⟨word, listed, ahead, behind⟩ := leads_iff.mp leads
    refine ⟨first.before.reverse, word, last.after, ?_, ?_, listed, ?_, behind⟩
    · rw [← ahead, first.spans]
    · rw [← last.before_take, ← first.before_take, Cursor.before_of_after ahead]
      simp
    · rw [List.getLast?_reverse]
      exact before

/-- A span of a listed word is not empty. -/
theorem filled_span (plain : PlainWords list) {span : Nat × Nat} (spans : SpansWord list text span) :
    span.1 < span.2 := by
  obtain ⟨former, word, latter, _, rfl, listed, _⟩ := spans
  have filled : word ≠ [] := by
    rintro rfl
    exact (plain.words _ listed).1 rfl
  have taken := (Text.byte_length_eq_zero_iff word).not.mpr filled
  rw [Text.byte_length_append]
  omega

/-- No listed word begins inside of another one. -/
theorem none_inside (plain : PlainWords list) {first last inner : Cursor text}
    (preferred : ((wordsExpr list).ends first).head? = some last)
    (behind : first.index < inner.index) (inside : inner.index < last.index) :
    ((wordsExpr list).ends inner).head? = none := by
  obtain ⟨_, leads⟩ := (Keyword.preferred_iff plain.spelled).mp preferred
  obtain ⟨word, listed, ahead, _⟩ := leads_iff.mp leads
  have letters := (plain.words _ listed).2
  rw [String.toList_ofList] at letters
  have length := Cursor.index_of_after ahead
  have begun : first.slice inner = word.take (inner.index - first.index) := by
    rw [Cursor.slice, ahead, List.take_append_of_le_length (by omega)]
  have passed : first.after = word.take (inner.index - first.index) ++ inner.after := by
    rw [← begun, Cursor.slice_append_after (Nat.le_of_lt behind)]
  have word : startsWithWord inner.before := by
    have filled : word.take (inner.index - first.index) ≠ [] := by
      rw [← List.length_pos_iff, List.length_take]
      omega
    rw [startsWithWord, Cursor.last_of_stretch filled passed, List.getLast?_eq_some_getLast filled]
    have among := List.mem_of_mem_take (List.getLast_mem filled)
    exact Unicode.isWord_of_isAsciiWord (letters _ among)
  cases again : ((wordsExpr list).ends inner).head? with
  | none => rfl
  | some reached =>
    obtain ⟨before, _⟩ := (Keyword.preferred_iff plain.spelled).mp again
    rw [word] at before
    cases before

variable {limit : Nat} {regex : Regex}

/-- A scan that is not given up reports its matches, which are the preferred ones. -/
theorem spans_eq (plain : PlainWords list)
    (compiled : (Pattern.keywords list).compile limit = .ok regex)
    (ended : (regex.scan text).problem = none) :
    ∃ hits : List (Cursor text × Cursor text),
      (regex.scan text).spans = Regex.byteSpans text (Regex.indices hits) ∧
      hits.Pairwise (fun hit other => hit.2.index ≤ other.1.index) ∧
      ∀ hit, hit ∈ hits ↔ ((wordsExpr list).ends hit.1).head? = some hit.2 := by
  have stands := plain.read.stands compiled
  obtain ⟨hits, scanned⟩ := Regex.scan_hits stands plain.consumes text ended
  have preferred := scanned.preferred stands.tame
  refine ⟨hits, scanned.spans stands.tame [], scanned.ordered stands.tame, fun hit => ?_⟩
  refine ⟨fun listed => (preferred hit listed).1, fun chosen => ?_⟩
  refine scanned.complete (fun other listed inner behind inside => ?_) chosen (Nat.zero_le _)
  exact plain.none_inside (preferred other listed).1 behind inside

/-- What is reported are the spans of the listed words. -/
theorem mem_spans_iff (plain : PlainWords list)
    (compiled : (Pattern.keywords list).compile limit = .ok regex)
    (ended : (regex.scan text).problem = none) {span : Nat × Nat} :
    span ∈ (regex.scan text).spans ↔ SpansWord list text span := by
  obtain ⟨hits, reported, _, found⟩ := plain.spans_eq compiled ended
  rw [reported, plain.spans_word_iff, Regex.byteSpans, Regex.indices, List.map_map]
  simp only [List.mem_map, found, Prod.exists, Function.comp_apply]

/-- What is reported lies one behind the other. -/
theorem spans_ordered (plain : PlainWords list)
    (compiled : (Pattern.keywords list).compile limit = .ok regex)
    (ended : (regex.scan text).problem = none) :
    (regex.scan text).spans.Pairwise fun span next => span.2 ≤ next.1 := by
  obtain ⟨hits, reported, ordered, _⟩ := plain.spans_eq compiled ended
  rw [reported, Regex.byteSpans, Regex.indices, List.map_map, List.pairwise_map]
  refine ordered.imp fun {hit other} behind => ?_
  exact Text.byte_length_take_le behind text

/-- A list with the same words has the same matches.

Proof: both scans report the spans of the words, in ascending order. -/
theorem spans_eq_of_same_words (plain : PlainWords list)
    (compiled : (Pattern.keywords list).compile limit = .ok regex)
    (ended : (regex.scan text).problem = none) {other : List String}
    (same : ∀ word, word ∈ other ↔ word ∈ list) {bound : Nat} {another : Regex}
    (made : (Pattern.keywords other).compile bound = .ok another)
    (finished : (another.scan text).problem = none) :
    (another.scan text).spans = (regex.scan text).spans := by
  have plainOther := plain.of_same_words same
  have spansWord (span : Nat × Nat) : SpansWord other text span ↔ SpansWord list text span := by
    simp only [SpansWord, same]
  have ascending {words : List String} (plain : PlainWords words) {spans : List (Nat × Nat)}
      (ordered : spans.Pairwise fun span next => span.2 ≤ next.1)
      (each : ∀ span ∈ spans, SpansWord words text span) :
      spans.Pairwise fun span next => span.1 < next.1 := by
    refine ordered.imp_of_mem fun {span next} listed _ behind => ?_
    have filled := plain.filled_span (each span listed)
    omega
  have irreflexive : Std.Irrefl fun span next : Nat × Nat => span.1 < next.1 := ⟨fun _ => by omega⟩
  have antisymmetric : Std.Antisymm fun span next : Nat × Nat => span.1 < next.1 :=
    ⟨fun _ _ _ _ => by omega⟩
  refine List.Pairwise.eq_of_mem_iff
    (ascending plainOther (plainOther.spans_ordered made finished)
      fun span => (plainOther.mem_spans_iff made finished).mp)
    (ascending plain (plain.spans_ordered compiled ended)
      fun span => (plain.mem_spans_iff compiled ended).mp) fun span => ?_
  rw [plainOther.mem_spans_iff made finished, plain.mem_spans_iff compiled ended, spansWord]

end PlainWords

/-- A pattern of words compiles, whatever the limit. Where no search of a scan exhausts this limit,
the scan comes to the end of its text, and the matches are the listed words that stand apart, in
their order. So a list with the same words, in another order or several times, has the same
matches. -/
theorem keywords_report_words {list : List String} (plain : PlainWords list) (limit : Nat) :
    ∃ regex, (Pattern.keywords list).compile limit = .ok regex ∧
      ∀ text, (regex.scan text).problem ≠ some (.exceeded .steps) →
        (regex.scan text).problem = none ∧
        ((regex.scan text).spans.Pairwise fun span next => span.2 ≤ next.1) ∧
        (∀ span, span ∈ (regex.scan text).spans ↔ SpansWord list text span) ∧
        ∀ (other : List String) (bound : Nat), (∀ word, word ∈ other ↔ word ∈ list) →
          ∃ another, (Pattern.keywords other).compile bound = .ok another ∧
            ((another.scan text).problem ≠ some (.exceeded .steps) →
              (another.scan text).spans = (regex.scan text).spans) := by
  have compiled := plain.compiles limit
  refine ⟨_, compiled, fun text unspent => ?_⟩
  have ended := plain.scan_ended compiled unspent
  refine ⟨ended, plain.spans_ordered compiled ended,
    fun span => plain.mem_spans_iff compiled ended, fun other bound same => ?_⟩
  have plainOther := plain.of_same_words same
  have made := plainOther.compiles bound
  exact ⟨_, made, fun unspent =>
    plain.spans_eq_of_same_words compiled ended same made (plainOther.scan_ended made unspent)⟩

/-- Of a word and a longer one that begins with it, each is found where it stands by itself. -/
theorem keywords_report_in_and_int : PlainWords ["in", "int"] ∧
    ∃ regex, (Pattern.keywords ["in", "int"]).compile 100 = .ok regex ∧
      (regex.scan "int in ".toList).problem ≠ some (.exceeded .steps) ∧
      (∀ span, span ∈ (regex.scan "int in ".toList).spans ↔
        SpansWord ["in", "int"] "int in ".toList span) ∧
      (regex.scan "int in ".toList).spans = [(0, 3), (4, 6)] := by
  have plain : PlainWords ["in", "int"] := ⟨by decide, by decide⟩
  obtain ⟨regex, compiled, reports⟩ := keywords_report_words plain 100
  obtain rfl := Except.ok.inj ((plain.compiles 100).symm.trans compiled)
  let scan := Regex.scan ⟨.machine (keywordsCode (["in", "int"].map .ofWord)), 100⟩ "int in ".toList
  have unspent : scan.problem ≠ some (.exceeded .steps) := by
    have ended : scan.problem = none := by decide +kernel
    rw [ended]
    exact Option.some_ne_none _ |>.symm
  exact ⟨plain, _, compiled, unspent, (reports _ unspent).2.2.1, by decide +kernel⟩

end Highlighter

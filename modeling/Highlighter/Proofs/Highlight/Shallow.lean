import Highlighter.Proofs.Dart.Scanning
import Highlighter.Proofs.Highlight.Rewriting
import Highlighter.Proofs.Markup.Escaping
import Highlighter.Proofs.Markup.Quotes

/-!
# Texts for which the stack suffices

A run with the grammar of Dart completes if the names of its text are short and the quotes are
closed in what the pass of keywords leaves. Names need not be looked at again behind a pass:
markup begins and ends with characters that no name goes on behind, so it cuts names and makes
none longer. Quotes do: a text between quotes grows with the markup inside of it, and the quotes
of an attribute can close it.

Any text of no more than fifteen thousand characters is shallow. There is a longer one that is
not, and the run fails on it.
-/

namespace Highlighter

open Text (Cursor)
open Regex (Found Hits)
open Regex.Machine (stackLimit)
open Markup (html marking)
open Highlight (passes)

/-! ### Marked text -/

/-- An opening tag is a text between angle brackets. -/
theorem Markup.opened_html (category : Category) :
    ∃ inner, html.opened category = '<' :: inner ++ ['>'] ∧ inner.length ≤ 40 := by
  refine ⟨(html.opened category).tail.dropLast, ?_⟩
  cases category <;> decide

/-- Markup makes no name longer.

Proof: induction over what is found. A match without characters is not marked, so a name may go on
behind it; what stands in front of it is carried along. -/
theorem Dart.NamesShort.marked (category : Category) {found : List Found} {rest : List Char}
    {former : List Char} (short : NamesShort (former ++ (found.flatMap Found.text ++ rest))) :
    NamesShort (former ++ html.marking category found rest) := by
  induction found generalizing former with
  | nil => exact short
  | cons entry others induction =>
    have split : former ++ ((entry :: others).flatMap Found.text ++ rest) =
        (former ++ entry.gap) ++ (entry.matched ++ (others.flatMap Found.text ++ rest)) := by
      simp [Found.text]
    rw [split] at short
    rw [Markup.marking_cons, ← List.append_assoc former]
    cases empty : entry.matched.isEmpty with
    | true =>
      rw [List.isEmpty_iff.mp empty] at short
      exact induction short
    | false =>
      obtain ⟨inner, opened, small⟩ := Markup.opened_html category
      have angle (sign : Char) (angles : sign = '<' ∨ sign = '>') :
          Unicode.isWord sign = false ∧ sign ≠ ' ' := by
        rcases angles with rfl | rfl <;> decide
      obtain ⟨left, visible⟩ := angle '<' (.inl rfl)
      obtain ⟨right, close⟩ := angle '>' (.inr rfl)
      have tag {tag : List Char} (small : tag.length ≤ 40) : NamesShort tag :=
        bounded_of_length .function (Nat.le_trans (Nat.add_le_add_right small 4) (by decide))
      obtain ⟨before, behind⟩ := short.of_append
      obtain ⟨matched, further⟩ := behind.of_append
      have onward : NamesShort (html.marking category others rest) := @induction [] further
      have closing := (tag (show "/span".toList.length ≤ 40 by decide)).append right close onward
      have whole := before.append left visible
        ((tag small).append right close (matched.append left visible closing))
      have same : html.wrap category entry.matched ++ html.marking category others rest =
          '<' :: (inner ++ '>' :: (entry.matched ++ '<' :: ("/span".toList ++ '>' ::
            html.marking category others rest))) := by
        rw [Markup.wrap, opened]
        simp [html]
      simp only [Bool.false_eq_true, ↓reduceIte, same]
      exact whole

/-- Marking makes a text no more than sixty-four times as long. -/
theorem Markup.length_marking_le (category : Category) (found : List Found) (rest : List Char) :
    (html.marking category found rest).length ≤ 64 * (found.flatMap Found.text ++ rest).length := by
  induction found with
  | nil =>
    change rest.length ≤ 64 * rest.length
    omega
  | cons entry others induction =>
    rw [marking_cons]
    simp only [List.flatMap_cons, Found.text, List.length_append] at induction ⊢
    cases empty : entry.matched.isEmpty with
    | true =>
      simp only [↓reduceIte, List.length_nil]
      omega
    | false =>
      have filled : 0 < entry.matched.length :=
        List.length_pos_iff.mpr (by simpa [List.isEmpty_iff] using empty)
      have tags : (html.wrap category entry.matched).length ≤ 49 + entry.matched.length := by
        obtain ⟨inner, opened, small⟩ := opened_html category
        have closing : html.closing.toList.length = 7 := by decide
        rw [wrap, List.length_append, List.length_append, opened, closing]
        simp only [List.cons_append, List.length_cons, List.length_append, List.length_nil]
        omega
      simp only [Bool.false_eq_true, ↓reduceIte]
      omega

namespace Highlight

/-- What comes of the text of a pass that settles is its text with markup. -/
theorem Settles.marks_text {category : Category} {entry : Option Pattern} {content : String}
    {first : Run} (settles : Settles html content (category, entry) first) :
    first.content = content ∨ ∃ found rest, content.toList = found.flatMap Found.text ++ rest ∧
      first.content.toList = marking html category found rest := by
  cases settles with
  | skipped absent => exact .inl rfl
  | @completed _ pattern regex _ compiled ended =>
    rw [Content.text_string]
    unfold RunOn.ofPass
    split
    · exact .inl rfl
    · refine .inr ⟨(regex.scan content.toList).found, (regex.scan content.toList).rest, ?_, ?_⟩
      · exact (Regex.scan_text regex content.toList).symm
      · exact String.toList_ofList

/-- Passes make no name longer. -/
theorem passes_names_short (plan : List (Category × Option Pattern)) {content : String}
    (short : Dart.NamesShort content.toList) :
    Dart.NamesShort (passes html plan content).content.toList := by
  induction plan generalizing content with
  | nil => exact short
  | cons head others induction =>
    rcases passes_head html head content with
      ⟨first, settles, begun⟩ | ⟨_, error, _, _, _, failed⟩
    · rw [begun, RunOn.and_then_completed settles.error_none]
      refine induction ?_
      rcases settles.marks_text with same | ⟨found, rest, whole, marked⟩
      · rwa [same]
      · rw [marked]
        rw [whole] at short
        exact @Dart.NamesShort.marked head.1 found rest [] short
    · rw [failed]
      exact short

end Highlight

/-! ### Quotes within tags -/

/-- A quote is as far away as there are characters before it, if none of them is a backslash. -/
theorem Dart.unescaped_clean {quote : Char} {clean rest : List Char}
    (plain : ∀ character ∈ clean, character ≠ quote ∧ character ≠ '\\') :
    unescaped quote false (clean ++ quote :: rest) = clean.length := by
  induction clean with
  | nil => simp [unescaped]
  | cons character others induction =>
    obtain ⟨different, unescaping⟩ := plain character List.mem_cons_self
    rw [List.cons_append, unescaped, if_neg fun both => different both.1,
      decide_eq_false unescaping, List.length_cons,
      induction fun other listed => plain other (List.mem_cons_of_mem _ listed)]

/-- If all double quotes are within tags and there are no single ones, the quotes are closed. -/
theorem Dart.quotes_close_within_tags {text : List Char} (single : '\'' ∉ text)
    (double : Markup.QuotesWithinTags text) : QuotesClose text := by
  rintro before quote after rfl (rfl | rfl) unmarked
  · exact absurd (List.mem_append_right before List.mem_cons_self) single
  · rcases double before after rfl with tag | ⟨clean, rest, rfl, small, plain⟩
    · exact absurd tag unmarked
    · rw [unescaped_clean plain]
      exact Nat.le_trans (Nat.add_le_add_right small 4) (by decide)

/-! ### Shallow texts -/

namespace Dart

/-- The text that the pass of literals comes to: that of the run with its keywords marked. -/
def beforeLiterals (content : String) : String :=
  (passes html [(.keyword, Grammar.dart.keywords)] content).content

/-- The text is what the pass leaves. As an equation of functions this is checked by unfolding the
definition only; the pass itself is not run. -/
theorem before_literals_eq (content : String) : beforeLiterals content =
    (passes html [(.keyword, Grammar.dart.keywords)] content).content :=
  congrFun (show beforeLiterals = fun content =>
    (passes html [(.keyword, Grammar.dart.keywords)] content).content from rfl) content

/-- The stack suffices for a run on the text. -/
structure Shallow (content : String) : Prop where
  names : NamesShort content.toList
  quotes : QuotesClose (beforeLiterals content).toList

/-- The pass of keywords completes. -/
theorem keywords_complete (content : String) :
    (passes html [(.keyword, Grammar.dart.keywords)] content).error = none := by
  have reliable : ∀ entry ∈ [(Category.keyword, Grammar.dart.keywords)], ∀ pattern,
      entry.2 = some pattern → Highlight.Reliable entry.1 pattern := fun entry listed =>
    Highlight.dart_reliable entry (List.mem_singleton.mp listed ▸ List.mem_cons_self)
  rcases Highlight.passes_cases html reliable content with ended | ⟨entry, listed, _, _, unbounded⟩
  · exact ended
  · obtain rfl := List.mem_singleton.mp listed
    exact absurd trivial unbounded

/-- A run goes on from what its pass of keywords leaves. -/
theorem highlight_behind_keywords (content : String) :
    (highlight Grammar.dart content).content =
        (passes html (Grammar.dart.plan.drop 1) (beforeLiterals content)).content ∧
      (highlight Grammar.dart content).error =
        (passes html (Grammar.dart.plan.drop 1) (beforeLiterals content)).error := by
  have plan : [(.keyword, Grammar.dart.keywords)] ++ Grammar.dart.plan.drop 1 =
      Grammar.dart.plan := rfl
  have split := Highlight.passes_append html [(.keyword, Grammar.dart.keywords)]
    (Grammar.dart.plan.drop 1) content
  rw [plan] at split
  have run : highlight Grammar.dart content = _ := split
  rw [before_literals_eq, run]
  exact RunOn.and_then_ends _ (keywords_complete content)

/-- The pass of keywords puts markup around the keywords. -/
theorem before_literals_marked (content : String) :
    ∃ hits found rest, Hits (keywordsExpr words) (Cursor.start content.toList) hits found rest ∧
      (beforeLiterals content).toList = marking html .keyword found rest := by
  have reads : List.Forall₂ Grammar.ReadAs [(.keyword, Grammar.dart.keywords)]
      [(.keyword, keywordsExpr words)] := .cons entries_read.1 .nil
  have rewritten := Highlight.passes_rewritten html reads
    (List.forall_mem_singleton.mpr keywords_plain.2) (keywords_complete content)
  rw [← before_literals_eq] at rewritten
  generalize (beforeLiterals content).toList = result at rewritten ⊢
  obtain ⟨hits, found, rest, _, scanned, done, _⟩ := rewritten.of_cons
  cases done
  exact ⟨hits, found, rest, scanned, rfl⟩

/-- A run on a shallow text completes. -/
theorem Shallow.completes {content : String} (shallow : Shallow content) :
    (highlight Grammar.dart content).error = none := by
  rw [(highlight_behind_keywords content).2]
  have names : NamesShort (beforeLiterals content).toList := by
    rw [before_literals_eq]
    exact Highlight.passes_names_short _ shallow.names
  have later : Grammar.dart.plan.drop 1 =
      (.literal, Grammar.dart.literals) :: Grammar.dart.plan.drop 2 := rfl
  have reliable : ∀ entry ∈ Grammar.dart.plan.drop 2, ∀ pattern, entry.2 = some pattern →
      Highlight.Reliable entry.1 pattern := fun entry listed =>
    Highlight.dart_reliable entry (List.mem_of_mem_drop listed)
  rw [later]
  rcases Highlight.passes_head html (.literal, Grammar.dart.literals) (beforeLiterals content) with
    ⟨first, settles, begun⟩ | ⟨pattern, error, same, _, fails, _⟩
  · rw [begun, RunOn.and_then_completed settles.error_none]
    have further : NamesShort first.content.toList := by
      have behind := Highlight.passes_names_short [(.literal, Grammar.dart.literals)] names
      rw [begun, RunOn.and_then_completed settles.error_none] at behind
      exact behind
    rcases Highlight.passes_cases html reliable first.content with
      ended | ⟨entry, listed, _, _, unbounded⟩
    · exact ended
    · have last := Highlight.passes_names_short (Grammar.dart.plan.drop 2) further
      have categories : ∀ entry ∈ Grammar.dart.plan.drop 2, entry.1 ≠ .literal := by decide
      have other := categories entry listed
      refine absurd ?_ unbounded
      cases category : entry.1 with
      | literal => exact absurd category other
      | function => exact last
      | _ => trivial
  · have present : Grammar.dart.literals = some pattern := congrArg Prod.snd same
    have planned : (Category.literal, Grammar.dart.literals) ∈ Grammar.dart.plan :=
      .tail _ (.head _)
    have literal := Highlight.dart_reliable _ planned pattern present
    have quotes : Bounded .literal (beforeLiterals content).toList := shallow.quotes
    obtain ⟨_, unbounded⟩ := literal.error_eq fails
    rw [Content.text_string] at unbounded
    exact absurd quotes unbounded

/-- A text of no more than fifteen thousand characters is shallow. -/
theorem shallow_of_length {content : String} (small : content.toList.length ≤ 15000) :
    Shallow content := by
  have limit : stackLimit = 1000000 := rfl
  refine ⟨bounded_of_length .function (by omega), bounded_of_length .literal ?_⟩
  obtain ⟨_, found, rest, scanned, marked⟩ := before_literals_marked content
  have whole : found.flatMap Found.text ++ rest = content.toList :=
    scanned.text_after keywords_plain.1
  have longer := Markup.length_marking_le .keyword found rest
  rw [whole] at longer
  rw [marked]
  omega

end Dart

/-! ### Overflows -/

namespace Highlight

/-- A pass that fills the stack ends the run where it stands. -/
theorem passes_given_up {category : Category} {pattern : Pattern}
    (reliable : Reliable category pattern) (present : pattern.isEmpty = false) {content : String}
    (givenUp : ∀ regex, pattern.compile (Pattern.searchLimit content) = .ok regex →
      (regex.scan content.toList).problem = some (.exceeded .stack))
    (others : List (Category × Option Pattern)) :
    passes html ((category, some pattern) :: others) content =
      ⟨content, [], [], some (.matchFailed category pattern.source (.exceeded .stack))⟩ := by
  rcases passes_head html (category, some pattern) content with
    ⟨_, settles, _⟩ | ⟨_, error, same, _, fails, failed⟩
  · obtain ⟨regex, compiled, ended⟩ := settles.completes present
    rw [Content.text_string] at compiled ended
    rw [givenUp regex compiled] at ended
    cases ended
  · obtain rfl := Option.some.inj (Prod.mk.inj same).2
    obtain ⟨rfl, _⟩ := reliable.error_eq fails
    exact failed others

end Highlight

namespace Dart

/-- No keyword is marked in a text without any of the signs that follow keywords. -/
theorem keywords_missing {content : String}
    (unfollowed : ∀ sign ∈ content.toList, keywordFollowers.contains sign = false) :
    beforeLiterals content = content := by
  obtain ⟨_, _, _, scanned, marked⟩ := before_literals_marked content
  refine String.toList_inj.mp (marked.trans ?_)
  cases scanned with
  | finished missing => rfl
  | @hit _ _ last _ _ _ matched _ =>
    obtain ⟨_, preferred, _⟩ := Regex.leftmost_some matched
    obtain ⟨_, _, _, _, follower, others, _, behind, contained⟩ :=
      keywords_match (by decide +kernel) (List.mem_of_mem_head? preferred)
    have among : follower ∈ content.toList := by
      rw [← last.spans, behind]
      exact List.mem_append_right _ List.mem_cons_self
    rw [unfollowed follower among] at contained
    cases contained

/-- An open quote holds no special character. -/
theorem escape_open_quote (letters : Nat) :
    Entity.escapeText (openQuote letters) = openQuote letters := by
  refine Entity.escape_text_eq_iff.mpr (Entity.escape_eq_self_iff.mpr fun character listed => ?_)
  rw [to_list_open_quote] at listed
  simp only [List.mem_cons, List.mem_replicate] at listed
  rcases listed with rfl | rfl | rfl | ⟨_, rfl⟩ <;> decide

/-- A run on an open quote with so many letters ends with the pass of literals and leaves the text
as it is. -/
theorem open_quote_run {letters : Nat} (long : stackLimit ≤ letters) :
    ∃ pattern, Grammar.dart.literals = some pattern ∧
      (highlight Grammar.dart (openQuote letters)).content = openQuote letters ∧
      (highlight Grammar.dart (openQuote letters)).error =
        some (.matchFailed .literal pattern.source (.exceeded .stack)) := by
  have unmarked : beforeLiterals (openQuote letters) = openQuote letters := by
    refine keywords_missing fun sign listed => ?_
    rw [to_list_open_quote] at listed
    simp only [List.mem_cons, List.mem_replicate] at listed
    rcases listed with rfl | rfl | rfl | ⟨_, rfl⟩ <;> decide
  have planned : (Category.literal, Grammar.dart.literals) ∈ Grammar.dart.plan := .tail _ (.head _)
  obtain ⟨_, ⟨_, pattern, present, filled, _⟩, _⟩ := entries_read
  change Grammar.dart.literals = some pattern at present
  have later : Grammar.dart.plan.drop 1 =
      (.literal, Grammar.dart.literals) :: Grammar.dart.plan.drop 2 := rfl
  obtain ⟨content, error⟩ := highlight_behind_keywords (openQuote letters)
  rw [unmarked, later, present, Highlight.passes_given_up
    (Highlight.dart_reliable _ planned pattern present) filled
    fun _ => open_quote_given_up long present] at content error
  exact ⟨pattern, present, content, error⟩

end Dart

end Highlighter

import Highlighter.Proofs.Dart.Matches
import Highlighter.Proofs.Markup.Sparing

/-!
# The patterns of Dart spare the markup

For each pattern of Dart it is shown where its matches in orderly text can begin and end.
Most patterns match characters that are never ahead at a guarded place, or are refused there
by what would have to follow.

The exception are literals in double quotes. The quote that begins an attribute may end
such a literal. It cannot begin one, because the next quote ends the class name and is
followed by `>`. So literals spare the markup, but are not tidy.
-/

namespace Highlighter.Dart

open Text (Cursor)
open Regex (Expr CharClass)
open Markup

variable {text : List Char} {first last : Cursor text} {tokens : List Token}

/-- Numbers are tidy: digits and periods are in no tag and no entity. -/
theorem spares_numbers : Spares (fun _ => True) numbers := by
  have digit {character : Char} (contained : (CharClass.having .digit).contains character) :
      Foreign character ∧ character ≠ '<' ∧ character ≠ '&' :=
    ⟨foreign_of_set (by decide) contained, plain_of_set (by decide) contained⟩
  have period {character : Char} (contained : (CharClass.single '.').contains character) :
      Foreign character ∧ character ≠ '<' ∧ character ≠ '&' :=
    ⟨foreign_of_set (by decide) contained, plain_of_set (by decide) contained⟩
  refine spares_of_foreign (by decide) (by decide) ?_
  exact ⟨trivial, fun _ => digit, ⟨fun _ => period, fun _ => digit⟩, trivial⟩

/-- Functions are tidy: no tag and no entity has a parenthesis behind a word. -/
theorem spares_functions : Spares (fun _ => True) functions := by
  have tame : functions.tame := by decide
  have within : functions.Within fun character => nameBegin.contains character ∨
      (CharClass.having .word).contains character ∨ character = ' ' :=
    ⟨trivial, fun _ => .inl, fun _ contained => .inr (.inl contained), trivial,
      fun _ contained => .inr (.inr (CharClass.contains_single.mp contained)), trivial⟩
  have follows {text : List Char} {first last : Cursor text}
      (member : last ∈ functions.ends first) : ∃ rest, last.after = '(' :: rest := by
    obtain ⟨middle, _, look⟩ := Expr.mem_sequences_append.mp member
    obtain ⟨rfl, reached, parenthesis⟩ := Expr.mem_look_ahead look
    exact ⟨_, Expr.after_of_mem_literal parenthesis⟩
  refine ⟨tame, by decide, fun preferred _ _ guarded => ?_, fun preferred orderly begins => ?_⟩
  · have member := List.mem_of_mem_head? preferred
    obtain ⟨stretch, ahead, properties⟩ := Expr.stretch_within _ member tame within
    obtain ⟨rest, parenthesis⟩ := follows member
    obtain ⟨next, others, same, begun⟩ :=
      guard_of_stretch (by decide) guarded ahead properties
    obtain ⟨rfl, _⟩ := List.cons.inj (parenthesis.symm.trans begun)
    have absent : ∀ ahead ∈ guardTexts, '(' ∉ ahead := by decide +kernel
    exact absent _ guarded.head.1 (same ▸ by simp)
  · obtain ⟨stretch, ahead, properties⟩ :=
      Expr.stretch_within _ (List.mem_of_mem_head? preferred) tame within
    refine covers_of_plain orderly begins ahead fun character listed => ?_
    constructor <;> rintro rfl <;> rcases properties _ listed with begin | word | blank
    all_goals contradiction

/-- Letters and the asterisk, which keywords are made of. -/
def isKeywordSign (character : Char) : Bool := character.isAlpha || character = '*'

/-- Keywords are spelled with letters and asterisks, and begin with a letter. -/
theorem spelling_signs : ∀ word ∈ words, ∀ spelling ∈ word.spellings,
    (∀ character ∈ spelling, isKeywordSign character) ∧ spelling.head?.any Char.isAlpha := by
  decide +kernel

/-- The signs that follow keywords are not parts of keywords or words. -/
theorem follower_apart {follower : Char} (follows : keywordFollowers.contains follower) :
    isKeywordSign follower = false ∧ Unicode.isWord follower = false ∧
      follower ∈ [' ', '.', '\x7b', '[', ')', ';'] := by
  have listed : follower ∈ [' ', '.', '\x7b', '[', ')', ';'] := by
    simpa [keywordFollowers, CharClass.contains, CharClass.single, or_assoc,
      ← CharClass.contains_single] using follows
  have apart : ∀ follower ∈ [' ', '.', '\x7b', '[', ')', ';'],
      isKeywordSign follower = false ∧ Unicode.isWord follower = false := by decide
  exact ⟨(apart follower listed).1, (apart follower listed).2, listed⟩

/-- Keywords are tidy: no tag and no entity holds a keyword in front of a sign that may follow
keywords. -/
theorem spares_keywords : Spares (fun _ => True) (keywordsExpr words) := by
  have absent : ∀ ahead ∈ guardTexts,
      (ahead.dropWhile isKeywordSign).head?.any keywordFollowers.contains →
        ∀ word ∈ words, ahead.takeWhile isKeywordSign ∉ word.spellings := by decide +kernel
  have filled : words ≠ [] := by decide
  refine ⟨keywords_plain.1, keywords_plain.2, fun preferred _ _ guarded => ?_,
    fun preferred orderly begins => ?_⟩
  · obtain ⟨word, listed, spelling, spells, follower, rest, ahead, follows, contained⟩ :=
      keywords_match filled (List.mem_of_mem_head? preferred)
    obtain ⟨next, others, same, begun⟩ :=
      guard_of_stretch (by decide) guarded ahead (spelling_signs word listed spelling spells).1
    obtain ⟨rfl, _⟩ := List.cons.inj (follows.symm.trans begun)
    have signs := (spelling_signs word listed spelling spells).1
    have ends := (follower_apart contained).1
    refine absent _ guarded.head.1 ?_ word listed ?_
    · rw [same, List.dropWhile_append_of_pos signs, List.dropWhile_cons_of_neg (by simp [ends])]
      exact contained
    · rw [same, List.takeWhile_append_of_pos signs, List.takeWhile_cons_of_neg (by simp [ends]),
        List.append_nil]
      exact spells
  · obtain ⟨word, listed, spelling, spells, _, _, ahead, _⟩ :=
      keywords_match filled (List.mem_of_mem_head? preferred)
    refine covers_of_plain orderly begins ahead fun character member => ?_
    constructor <;> rintro rfl <;> cases (spelling_signs word listed spelling spells).1 _ member

/-- No type argument begins with a tag: what follows the word in a tag is not `>`. -/
theorem not_type_argument (orderly : Orderly false tokens) (begins : written tokens = first.after)
    (member : last ∈ typeArgument.ends first) : False := by
  let word := (union [.having .word, .single '?']).contains
  obtain ⟨inner, less, others⟩ := Expr.mem_sequences_cons.mp member
  obtain ⟨outer, listed, greater⟩ := Expr.mem_sequences_cons.mp others
  obtain ⟨stretch, ahead, properties⟩ := Expr.stretch_within (fun character => word character)
    listed (by decide) fun _ contained => contained
  obtain ⟨tag, more, _, either, same⟩ :=
    tag_of_less orderly (begins.trans (Expr.after_of_mem_literal less))
  have behind : ∀ tag ∈ [Token.opening, Token.closing], ∃ rest next others,
      tag.text = '<' :: rest ∧ rest.dropWhile word = next :: others ∧ next ≠ '>' := by
    intro tag either
    rcases List.mem_pair.mp either with rfl | rfl
    · exact ⟨"span class=\"".toList, ' ', "class=\"".toList, by decide⟩
    · exact ⟨"/span>".toList, '/', "span>".toList, by decide⟩
  obtain ⟨rest, next, others, text, dropped, different⟩ := behind tag either
  rw [text, List.cons_append] at same
  have found := congrArg (List.dropWhile word) (List.cons.inj same).2
  rw [ahead, Expr.after_of_mem_literal greater, List.dropWhile_append_of_pos properties,
    List.dropWhile_append, dropped] at found
  exact different (List.cons.inj found).1.symm

/-- Types are tidy. Only one class name begins like the name of a type, and there the word goes
on. No name of a class begins at a guarded place, no type argument matches a tag, and
parentheses are always those of the source. -/
theorem spares_classes : Spares (fun _ => True) classes := by
  have alphabetic : ∀ name ∈ typeNames, ∀ letter ∈ name.toList, letter.isAlpha := by
    decide
  refine ⟨by decide, by decide, fun preferred _ _ guarded => ?_,
    @fun text first last tokens preferred orderly begins => ?_⟩
  · rcases classes_match (List.mem_of_mem_head? preferred) with
      ⟨name, listed, ahead, boundary⟩ | ⟨named, _, member, _⟩
    · obtain ⟨next, others, same, begun⟩ :=
        guard_of_stretch (by decide) guarded ahead (alphabetic name listed)
      have goesOn : ∀ ahead ∈ guardTexts, ∀ name ∈ typeNames, name.toList.isPrefixOf ahead →
          Regex.Assertion.startsWithWord (ahead.drop name.toList.length) := by decide +kernel
      have further := goesOn _ guarded.head.1 name listed (by simp [same])
      rw [same, List.drop_left] at further
      rw [begun] at boundary
      exact absurd further (by simpa [Regex.Assertion.startsWithWord] using boundary)
    · obtain ⟨_, begin, _⟩ := Expr.mem_sequences_cons.mp member
      obtain ⟨character, ahead, contained⟩ := CharClass.after_of_mem_ends begin
      exact not_guarded_of_foreign (foreign_of_set (by decide) contained) guarded ahead
  · rcases classes_match (List.mem_of_mem_head? preferred) with
      ⟨name, listed, ahead, _⟩ | ⟨named, argued, begin, typed, called⟩
    · refine covers_of_plain orderly begins ahead fun character member => ?_
      constructor <;> rintro rfl <;> cases alphabetic name listed _ member
    · obtain ⟨stretch, ahead, letters⟩ := Expr.stretch_within
        (fun character => character ≠ '<' ∧ character ≠ '&') begin (by decide)
        ⟨fun _ => plain_of_set (by decide), fun _ => plain_of_set (by decide)⟩
      obtain ⟨latter, rfl, _, behind, _, ordered⟩ :=
        plain_stretch orderly letters (begins.trans ahead)
      obtain rfl : argued = named := (Expr.mem_optional typed).resolve_right
        (not_type_argument ordered behind)
      rcases Expr.mem_optional called with rfl | arguments
      · exact covers_of_plain orderly begins ahead letters
      · obtain ⟨inner, opens, others⟩ := Expr.mem_sequences_cons.mp arguments
        obtain ⟨outer, listed, closes⟩ := Expr.mem_sequences_cons.mp others
        obtain ⟨content, within, _⟩ := Expr.stretch_within (fun _ => True) listed (by decide)
          fun _ _ => trivial
        have whole : first.after = (stretch ++ '(' :: content) ++ ')' :: last.after := by
          rw [ahead, Expr.after_of_mem_literal opens, within, Expr.after_of_mem_literal closes,
            List.append_assoc, List.cons_append]
        exact covers_of_foreign_end orderly begins (by decide) (by decide) whole

/-- Comments are tidy. Their first two signs are in no tag and no entity, and they end in front
of a line feed or behind an asterisk and a slash, which are those of the source. -/
theorem spares_comments : Spares (fun _ => True) comments := by
  refine ⟨by decide, by decide, fun preferred _ _ guarded => ?_,
    @fun text first last tokens preferred orderly begins => ?_⟩
  · have goesOn : ∀ ahead ∈ guardTexts, ahead.head? = some '/' →
        ahead.tail.head? = some 's' := by decide +kernel
    obtain ⟨listed, head, others, rfl, same⟩ := guarded.head
    have begun : head = '/' ∧ others.head? ≠ some 's' := by
      rcases comments_match preferred with ⟨_, ahead, _⟩ | ⟨_, ahead⟩
      all_goals
        obtain ⟨rfl, rest⟩ := List.cons.inj (same.symm.trans ahead)
        refine ⟨rfl, fun letter => ?_⟩
        obtain ⟨further, rfl⟩ := List.head?_eq_some_iff.mp letter
        cases rest
    obtain ⟨rfl, other⟩ := begun
    exact other (goesOn _ listed rfl)
  · rcases comments_match preferred with ⟨stretch, ahead, ended⟩ | ⟨stretch, ahead⟩
    · have whole : first.after = ('/' :: '/' :: stretch) ++ last.after := ahead
      cases behind : last.after with
      | nil => exact covers_of_end orderly begins whole behind
      | cons next rest =>
        obtain rfl := ended next rest behind
        exact covers_of_foreign_ahead orderly begins (by decide) (by decide) whole behind
    · have cut : written tokens = ('/' :: '*' :: stretch) ++ '*' :: '/' :: last.after :=
        begins.trans ahead
      obtain ⟨former, latter, rfl, asterisk, begun, further, reached, ordered⟩ :=
        foreign_source orderly (by decide) (by decide) cut
      obtain ⟨behind, rfl, slash, ended, rest⟩ := plain_source ordered (by decide) further
      refine ⟨former ++ [.source '*', .source '/'], behind, false, by simp, ?_, ended, ?_, rest,
        fun _ => rfl⟩
      · rw [written_append, begun, written_cons, written_cons, asterisk, slash]
        exact (Cursor.slice_of_after (by simp [ahead, written])).symm
      · rw [state_append, reached]
        rfl

/-- A literal covers whole pieces, outside of tags or up to the quote of an opening tag. -/
theorem literals_cover (member : last ∈ literals.ends first) (orderly : Orderly false tokens)
    (begins : written tokens = first.after) :
    Covers True first last tokens ∨
      ∃ former latter, tokens = former ++ .opening :: latter ∧
        written (former ++ [.opening]) = first.slice last ∧ written latter = last.after ∧
        state? false former = some false ∧ Orderly true latter := by
  obtain ⟨option, listed, matched⟩ := Expr.exists_of_mem_alternatives (by decide) member
  rcases List.mem_pair.mp listed with rfl | rfl
  · obtain ⟨stretch, ahead, _⟩ := quoted_match matched
    have whole : first.after = ('\'' :: stretch) ++ '\'' :: last.after := ahead
    exact .inl (covers_of_foreign_end orderly begins (by decide) (by decide) whole)
  · obtain ⟨stretch, ahead, _, _, unmarked⟩ := quoted_match matched
    have whole : first.after = ('"' :: stretch) ++ '"' :: last.after := ahead
    have slice : first.slice last = ('"' :: stretch) ++ ['"'] :=
      Cursor.slice_of_after (by rw [whole, List.append_assoc, List.singleton_append])
    rcases place_cases orderly (begins.trans whole) with
      ⟨former, latter, rfl, begun, ended, reached, rest⟩ |
        ⟨former, token, latter, before, behind, passed, ahead, rfl, reached, passes, rest, guarded⟩
    · obtain ⟨onward, rfl, single, behind, ordered⟩ := plain_source rest (by decide) ended
      refine .inl ⟨former ++ [.source '"'], onward, false, by simp, ?_, behind, ?_, ordered,
        fun _ => rfl⟩
      · rw [written_append, begun, slice, written_cons, single]
        rfl
      · rw [state_append, reached]
        rfl
    · rcases guarded_quote guarded with ⟨rfl, rfl, rest'⟩ | marked
      · cases before with
        | true => cases passes
        | false =>
          obtain rfl := Option.some.inj passes
          refine .inr ⟨former, latter, rfl, ?_, rest'.symm, reached, rest⟩
          rw [slice, guarded.before, written_append, List.append_assoc, ← guarded.text]
          exact congrArg _ (List.append_nil _)
      · exact absurd marked unmarked

/-- Literals spare the markup. A literal cannot begin with the quote of an opening tag: the
next quote behind it ends the class name, and `>` follows. -/
theorem spares_literals : Spares (fun matched => ¬ html.opening.toList <:+ matched) literals := by
  refine ⟨by decide, by decide, @fun text first last former latter token before behind passed ahead
    gap preferred passes orderly guarded => ?_, fun preferred orderly begins => ?_⟩
  · have member := List.mem_of_mem_head? preferred
    obtain ⟨option, listed, matched⟩ := Expr.exists_of_mem_alternatives (by decide) member
    rcases List.mem_pair.mp listed with rfl | rfl
    · obtain ⟨stretch, ahead, _⟩ := quoted_match matched
      exact not_guarded_of_foreign (by decide) guarded ahead
    · obtain ⟨stretch, ahead, between, unmarked, absent⟩ := quoted_match matched
      rw [ahead] at guarded
      rcases guarded_quote guarded with ⟨rfl, rfl, same⟩ | marked
      · cases before with
        | true => cases passes
        | false =>
          obtain rfl := Option.some.inj passes
          obtain ⟨clean, rest, named, plain⟩ := name_ahead orderly
          have closed := between.first_quote (by decide) plain (same.trans named)
          exact absent (by rw [closed]; rfl)
      · exact unmarked marked
  · rcases literals_cover (List.mem_of_mem_head? preferred) orderly begins with
      covers | ⟨former, latter, rfl, matched, ended, reached, ordered⟩
    · exact covers.weaken fun _ => trivial
    · refine ⟨former ++ [.opening], latter, true, by simp, matched, ended, ?_, ordered,
        fun tidy => absurd ?_ tidy⟩
      · rw [state_append, reached]
        rfl
      · rw [← matched, written_append]
        exact List.suffix_append _ _

/-- All patterns of Dart spare the markup. -/
theorem plan_spares : ∀ part ∈ plan, ∃ tidy, Spares tidy part.2 := by
  intro part listed
  simp only [plan, List.mem_cons, List.not_mem_nil, or_false] at listed
  rcases listed with rfl | rfl | rfl | rfl | rfl | rfl
  · exact ⟨_, spares_keywords⟩
  · exact ⟨_, spares_literals⟩
  · exact ⟨_, spares_functions⟩
  · exact ⟨_, spares_numbers⟩
  · exact ⟨_, spares_classes⟩
  · exact ⟨_, spares_comments⟩

end Highlighter.Dart

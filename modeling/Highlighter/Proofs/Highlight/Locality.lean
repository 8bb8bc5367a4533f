import Highlighter.Proofs.Dart.Sparing
import Highlighter.Proofs.Highlight.Shallow

/-!
# Lines are marked on their own

Without quotes and comments of several lines, nothing in a text of Dart reaches over the end
of a line. So marking two texts with a line feed between them marks each of them.

All patterns but two are within a line by themselves. A comment of several lines would begin
with two signs that markup does not bring together. Literals are a matter of the quotes: the
only ones are in the tags of the keywords, where the first has the second as its end and `>`
behind it. So the pass of literals finds nothing, here as in each of the two texts.
-/

namespace Highlighter

open Text (Cursor)
open Regex (Expr CharClass Found Hits)
open Markup (html marking)
open Regex.Machine (stackLimit)

/-! ### Comments -/

namespace Dart

/-- The characters do not begin a comment of several lines, the one behind the other. -/
def Harmless (character next : Char) : Prop := ¬ (character = '/' ∧ next = '*')

theorem harmless_of_last {character next : Char} (other : character ≠ '/') :
    Harmless character next := fun begins => other begins.1

theorem harmless_of_next {character next : Char} (other : next ≠ '*') :
    Harmless character next := fun begins => other begins.2

/-- Neighbors are harmless exactly if no comment of several lines begins. -/
theorem harmless_iff {text : List Char} :
    text.IsChain Harmless ↔ ¬ ['/', '*'] <:+: text := by
  constructor
  · intro harmless begins
    have neighbors : List.IsChain Harmless ['/', '*'] := List.IsChain.infix harmless begins
    exact List.isChain_pair.mp neighbors ⟨rfl, rfl⟩
  · intro missing
    refine (List.isChain_isInfix text).imp ?_
    rintro _ _ listed ⟨rfl, rfl⟩
    exact missing listed

/-- A comment up to the end of the line. -/
def lineComments : Expr :=
  .capture 1 (.sequences [sign '/', sign '/',
    atLeast 0 (.one (some (.complement (union [.single '\n']))))])

/-- A comment of several lines. -/
def longComments : Expr :=
  .capture 2 (.sequences [sign '/', sign '*', .repetition (.one (some .anything)) 0 none false,
    sign '*', sign '/'])

/-- A comment is one up to the end of the line or one of several lines. -/
theorem comments_ends {text : List Char} (place : Cursor text) :
    comments.ends place = lineComments.ends place ++ longComments.ends place := rfl

/-- Without its begin there is no comment of several lines. -/
theorem long_comments_missing {text : List Char} (harmless : text.IsChain Harmless)
    (place : Cursor text) : longComments.ends place = [] := by
  refine List.eq_nil_iff_forall_not_mem.mpr fun last member => ?_
  obtain ⟨middle, begin, others⟩ := Expr.mem_sequences_cons.mp member
  obtain ⟨begun, second, _⟩ := Expr.mem_sequences_cons.mp others
  have ahead : place.after = '/' :: '*' :: begun.after := by
    rw [Expr.after_of_mem_literal begin, Expr.after_of_mem_literal second]
  have chained : place.after.IsChain Harmless := by
    rw [place.after_drop]
    exact harmless.drop _
  rw [ahead, List.isChain_cons_cons] at chained
  exact chained.1 ⟨rfl, rfl⟩

end Dart

/-- Expressions that match the same everywhere in the text find the same. -/
theorem Regex.Hits.congr {text : List Char} {expression : Expr} (other : Expr)
    (same : ∀ place : Cursor text, expression.ends place = other.ends place) {place : Cursor text}
    {hits : List (Cursor text × Cursor text)} {found : List Found} {rest : List Char}
    (scanned : Hits expression place hits found rest) : Hits other place hits found rest := by
  have first (place : Cursor text) : expression.first? place = other.first? place := by
    rw [Expr.first?, Expr.first?, funext same]
  induction scanned with
  | finished missing => exact .finished ((first _).symm.trans missing)
  | hit matched _ induction => exact .hit ((first _).symm.trans matched) induction

namespace Markup

/-- Marking brings no two characters together that begin a comment of several lines. -/
theorem marking_harmless (category : Category) {found : List Found} {rest : List Char}
    (filled : ∀ entry ∈ found, entry.matched.isEmpty = false)
    (harmless : (found.flatMap Found.text ++ rest).IsChain Dart.Harmless) :
    (marking html category found rest).IsChain Dart.Harmless := by
  have tags : (html.opened category).IsChain Dart.Harmless ∧
      html.closing.toList.IsChain Dart.Harmless := by
    simp only [Dart.harmless_iff]
    cases category <;> decide
  have begins : (html.opened category).head? = some '<' ∧
      html.closing.toList.head? = some '<' := by
    cases category <;> decide
  have ends : (html.opened category).getLast? = some '>' ∧
      html.closing.toList.getLast? = some '>' := by
    cases category <;> decide
  have joined {former tag latter : List Char} (first : former.IsChain Dart.Harmless)
      (second : tag.IsChain Dart.Harmless) (third : latter.IsChain Dart.Harmless)
      (begun : tag.head? = some '<') (ended : tag.getLast? = some '>') :
      (former ++ (tag ++ latter)).IsChain Dart.Harmless := by
    refine first.append (second.append third ?_) ?_
    · intro last same _ _
      rw [ended] at same
      exact Dart.harmless_of_last (by rintro rfl; cases same)
    · intro _ _ next same
      rw [List.head?_append, begun] at same
      exact Dart.harmless_of_next (by rintro rfl; cases same)
  induction found with
  | nil => exact harmless
  | cons entry others induction =>
    rw [List.flatMap_cons, List.append_assoc, Found.text, List.append_assoc] at harmless
    have gap := harmless.left_of_append
    have matched := harmless.right_of_append.left_of_append
    have further := induction (fun entry listed => filled entry (List.mem_cons_of_mem _ listed))
      harmless.right_of_append.right_of_append
    rw [marking_filled category (filled entry List.mem_cons_self)]
    exact joined gap tags.1 (joined matched tags.2 further begins.2 ends.2) begins.1 ends.1

end Markup

/-! ### Quotes -/

/-- If all double quotes are within tags and there are no single ones, no literal is found.

Proof: the quote behind the one that begins the literal has `>` behind it, or the quote itself
has. -/
theorem Dart.literals_missing {text : List Char} (single : '\'' ∉ text)
    (double : Markup.QuotesWithinTags text) (place : Cursor text) : literals.ends place = [] := by
  refine List.eq_nil_iff_forall_not_mem.mpr fun last member => ?_
  obtain ⟨option, listed, matched⟩ := Expr.exists_of_mem_alternatives (by decide) member
  rcases List.mem_pair.mp listed with rfl | rfl
  · obtain ⟨stretch, ahead, _⟩ := quoted_match matched
    have inside := place.spans
    rw [ahead] at inside
    exact single (inside ▸ List.mem_append_right _ List.mem_cons_self)
  · obtain ⟨stretch, ahead, between, begun, closed⟩ := quoted_match matched
    have inside := place.spans
    rw [ahead] at inside
    rcases double _ _ inside.symm with tag | ⟨clean, rest, same, _, plain⟩
    · exact begun tag
    · rw [between.first_quote (by decide) plain same] at closed
      exact closed rfl

/-! ### Lines -/

/-- The text has no quotes and no begin of a comment of several lines. -/
structure Unquoted (text : List Char) : Prop where
  single : '\'' ∉ text
  double : '"' ∉ text
  uncommented : ¬ ['/', '*'] <:+: text

/-- Two texts without quotes and comments have none with a line feed between them. -/
theorem Unquoted.lines {former latter : List Char} (first : Unquoted former)
    (second : Unquoted latter) : Unquoted (former ++ '\n' :: latter) where
  single := by
    simp only [List.mem_append, List.mem_cons, not_or]
    exact ⟨first.single, by decide, second.single⟩
  double := by
    simp only [List.mem_append, List.mem_cons, not_or]
    exact ⟨first.double, by decide, second.double⟩
  uncommented := by
    refine Dart.harmless_iff.mp ((Dart.harmless_iff.mpr first.uncommented).append
      ((Dart.harmless_iff.mpr second.uncommented).cons ?_) ?_)
    · exact fun _ _ => Dart.harmless_of_last (by decide)
    · intro _ _ next same
      exact Dart.harmless_of_next (by rintro rfl; cases same)

/-- Without quotes no double quote is outside of a tag. -/
theorem Unquoted.within_tags {text : List Char} (unquoted : Unquoted text) :
    Markup.QuotesWithinTags text := by
  rintro before after rfl
  exact absurd (List.mem_append_right before List.mem_cons_self) unquoted.double

/-- A text without quotes is shallow if its names are short. -/
theorem Unquoted.shallow {content : String} (unquoted : Unquoted content.toList)
    (names : Dart.NamesShort content.toList) : Dart.Shallow content := by
  obtain ⟨_, found, rest, scanned, marked⟩ := Dart.before_literals_marked content
  have tame := Dart.spares_keywords.tame
  have filled := scanned.filled tame Dart.spares_keywords.consumes
  have same : found.flatMap Found.text ++ rest = content.toList := scanned.text_after tame
  refine ⟨names, ?_⟩
  rw [marked]
  exact Dart.quotes_close_within_tags (Markup.marking_single .keyword filled (same ▸ unquoted.single))
    (Markup.marking_quotes .keyword filled (same ▸ unquoted.double))

/-- The expressions of Dart that are within a line, without literals and comments of several
lines. -/
def Dart.linePlan : List (Category × Expr) :=
  [(.keyword, keywordsExpr words), (.function, functions), (.number, numbers), (.type, classes),
   (.comment, lineComments)]

/-- A pass keeps a text without the begin of a comment of several lines. -/
theorem Regex.Hits.harmless {expression : Expr} (tame : expression.tame)
    (consumes : 0 < expression.minimalLength) {text : List Char}
    {hits : List (Cursor text × Cursor text)} {found : List Found} {rest : List Char}
    (scanned : Hits expression (Cursor.start text) hits found rest)
    (harmless : text.IsChain Dart.Harmless) (category : Category) :
    (marking html category found rest).IsChain Dart.Harmless := by
  refine Markup.marking_harmless category (scanned.filled tame consumes) ?_
  rw [scanned.text_after tame]
  exact harmless

/-- Where no literal is found, the pass of literals leaves the text as it is. -/
theorem Regex.Hits.literals_missing {text : List Char} (single : '\'' ∉ text)
    (double : Markup.QuotesWithinTags text) {hits : List (Cursor text × Cursor text)}
    {found : List Found} {rest : List Char}
    (scanned : Hits Dart.literals (Cursor.start text) hits found rest) :
    marking html .literal found rest = text := by
  cases scanned with
  | finished missing => rfl
  | hit matched _ =>
    obtain ⟨_, preferred, _⟩ := Regex.leftmost_some matched
    rw [Dart.literals_missing single double] at preferred
    cases preferred

/-- Without quotes and comments, what the expressions of Dart make of a text is what those within a
line make of it.

Proof: behind the keywords the only quotes are those of their tags, so no literal is found. No pass
brings the signs together that begin a comment of several lines. -/
theorem Rewritten.within_lines {text result : List Char} {log : List Message}
    (unquoted : Unquoted text) (rewritten : Rewritten html Dart.plan text result log) :
    ∃ told, Rewritten html Dart.linePlan text result told := by
  have harmless := Dart.harmless_iff.mpr unquoted.uncommented
  obtain ⟨_, words, rest, _, keywords, rewritten, _⟩ := rewritten.of_cons
  have tame := Dart.spares_keywords.tame
  have consumes := Dart.spares_keywords.consumes
  have same : words.flatMap Found.text ++ rest = text := keywords.text_after tame
  have filled := keywords.filled tame consumes
  have single := Markup.marking_single .keyword filled (same ▸ unquoted.single)
  have double := Markup.marking_quotes .keyword filled (same ▸ unquoted.double)
  have harmless := keywords.harmless tame consumes harmless .keyword
  obtain ⟨_, _, _, _, literals, rewritten, _⟩ := rewritten.of_cons
  rw [literals.literals_missing single double] at rewritten
  obtain ⟨_, _, _, _, functions, rewritten, _⟩ := rewritten.of_cons
  have harmless := functions.harmless Dart.spares_functions.tame Dart.spares_functions.consumes
    harmless .function
  obtain ⟨_, _, _, _, numbers, rewritten, _⟩ := rewritten.of_cons
  have harmless := numbers.harmless Dart.spares_numbers.tame Dart.spares_numbers.consumes
    harmless .number
  obtain ⟨_, _, _, _, types, rewritten, _⟩ := rewritten.of_cons
  have harmless := types.harmless Dart.spares_classes.tame Dart.spares_classes.consumes
    harmless .type
  obtain ⟨_, _, _, _, comments, rewritten, _⟩ := rewritten.of_cons
  have lines := comments.congr Dart.lineComments fun place => by
    rw [Dart.comments_ends, Dart.long_comments_missing harmless, List.append_nil]
  cases rewritten with
  | done _ =>
    exact ⟨_, .pass keywords (.pass functions (.pass numbers (.pass types
      (.pass lines (.done _)))))⟩

/-- A run on a text that begins with so many letters leaves it as it is, if it has no keywords and
no quotes: the pass of functions fails. -/
theorem Dart.long_name_run {content : String} {letters : Nat} {rest : List Char}
    (begins : content.toList = List.replicate letters 'a' ++ rest) (long : stackLimit < letters)
    (unquoted : Unquoted content.toList)
    (unfollowed : ∀ sign ∈ content.toList, keywordFollowers.contains sign = false) :
    (highlight Grammar.dart content).content = content ∧
      (highlight Grammar.dart content).error ≠ none := by
  have literals : (Category.literal, Grammar.dart.literals) ∈ Grammar.dart.plan := .tail _ (.head _)
  have functions : (Category.function, Grammar.dart.functions) ∈ Grammar.dart.plan :=
    .tail _ (.tail _ (.head _))
  obtain ⟨_, ⟨_, quoted, present, filled, reads⟩, ⟨_, called, listed, nonempty, _⟩, _⟩ := entries_read
  change Grammar.dart.literals = some quoted at present
  change Grammar.dart.functions = some called at listed
  have later : Grammar.dart.plan.drop 1 = (.literal, Grammar.dart.literals) ::
      (.function, Grammar.dart.functions) :: Grammar.dart.plan.drop 3 := rfl
  have stops := Highlight.passes_given_up (Highlight.dart_reliable _ functions called listed) nonempty
    (fun _ => long_name_given_up begins long listed) (Grammar.dart.plan.drop 3)
  have behind := highlight_behind_keywords content
  rw [keywords_missing unfollowed, later, present, listed] at behind
  rcases Highlight.passes_head html (.literal, some quoted) content with
    ⟨first, settles, begun⟩ | ⟨_, _, same, _, fails, _⟩
  · have consumes : 0 < Dart.literals.minimalLength := spares_literals.consumes
    obtain ⟨_, _, _, scanned, marked, _⟩ := settles.rewrites reads consumes filled
    have unchanged : first.content = content := String.toList_inj.mp
      (marked.trans (scanned.literals_missing unquoted.single unquoted.within_tags))
    have ends := RunOn.and_then_ends (Highlight.passes html
      ((.function, some called) :: Grammar.dart.plan.drop 3)) settles.error_none
    rw [begun, ends.1, ends.2, unchanged, stops] at behind
    rw [behind.1, behind.2]
    exact ⟨rfl, nofun⟩
  · obtain rfl := Option.some.inj (Prod.mk.inj same).2
    obtain ⟨_, unbounded⟩ := (Highlight.dart_reliable _ literals quoted present).error_eq fails
    exact absurd (quotes_close_within_tags unquoted.single unquoted.within_tags) unbounded

/-- A number on its own is marked. -/
theorem lone_number_marked :
    (highlight Grammar.dart "1").content = "<span class=\"code-number-literal\">1</span>" := by
  rw [(Dart.highlight_behind_keywords "1").1, Dart.keywords_missing (by decide)]
  decide +kernel

end Highlighter

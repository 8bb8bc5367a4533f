import Highlighter.Category
import Highlighter.Grammar.Pattern
import Highlighter.Proofs.Regex.Matched
import Highlighter.Proofs.Regex.Reader
import Highlighter.Proofs.Regex.Search

/-!
# What patterns are read as

What a pattern compiles to stands for the expression that its text is read as. So all that
is shown of matches of the expression holds for searches with the pattern.

A pattern of keywords is read as alternatives between a word boundary and a look at what
follows. A match of it spells one of the keywords, and one of few signs follows. A keyword
consists of letters, and perhaps of an asterisk at its end that may be missing.
-/

namespace Highlighter

open Text (Cursor)
open Regex (Expr CharClass)
open Regex.Parser

namespace Pattern

/-- The pattern is read as the expression, which is tame. -/
structure ReadAs (pattern : Pattern) (expression : Expr) : Prop where
  parsed : Regex.Parser.parse pattern.wrapped.toList = .ok expression
  tame : expression.tame

/-- A pattern is compiled to the matcher of its expression. -/
theorem ReadAs.compile_eq {pattern : Pattern} {expression : Expr}
    (reads : pattern.ReadAs expression) {made : Regex.Matcher}
    (matched : Regex.Compile.matcher expression = .ok made) (limit : Nat) :
    pattern.compile limit = .ok ⟨made, limit⟩ := by
  simp [compile, Regex.compile, reads.parsed, matched, bind, Except.bind, pure, Except.pure]

/-- What a pattern compiles to stands for the expression that the pattern is read as. -/
theorem ReadAs.stands {pattern : Pattern} {expression : Expr} (reads : pattern.ReadAs expression)
    {limit : Nat} {regex : Regex} (compiled : pattern.compile limit = .ok regex) :
    Regex.Stands regex expression := by
  refine ⟨reads.tame, ?_⟩
  simp only [compile, Regex.compile, reads.parsed, bind, Except.bind] at compiled
  cases made : Regex.Compile.matcher expression with
  | error obstacle =>
    rw [made] at compiled
    cases compiled
  | ok matcher =>
    rw [made] at compiled
    cases compiled
    rfl

end Pattern

/-- An entry of a plan has a pattern, which is read as the expression of the part. -/
def Grammar.ReadAs (entry : Category × Option Pattern) (part : Category × Expr) : Prop :=
  entry.1 = part.1 ∧ ∃ pattern, entry.2 = some pattern ∧ pattern.isEmpty = false ∧
    pattern.ReadAs part.2

/-- A keyword: its letters, and whether an asterisk may follow them. -/
structure Keyword where
  letters : List Char
  starred : Bool

namespace Keyword

/-- The text of the keyword in a pattern. -/
def text (keyword : Keyword) : List Char :=
  keyword.letters ++ if keyword.starred then ['\\', '*', '?'] else []

/-- What the text is read as. -/
def parts (keyword : Keyword) : List Expr :=
  (keyword.letters.map fun letter => Expr.literal letter false) ++
    if keyword.starred then [.repetition (.literal '*' false) 0 (some 1) true] else []

/-- What the keyword matches. -/
def spellings (keyword : Keyword) : List (List Char) :=
  keyword.letters :: if keyword.starred then [keyword.letters ++ ['*']] else []

/-- The keyword with the given text. -/
def ofText (text : List Char) : Keyword :=
  let letters := text.takeWhile Char.isAlpha
  ⟨letters, letters.length < text.length⟩

/-- The text of a keyword of letters is read as its parts. -/
theorem fragment {keyword : Keyword}
    (plain : ∀ letter ∈ keyword.letters, Unicode.isAsciiWord letter) :
    Fragment keyword.text keyword.parts := by
  have word := fragment_word plain
  unfold text parts
  cases keyword.starred with
  | false => simpa using word
  | true => exact word.append fragment_optional_asterisk

/-- A match of a keyword is one of its spellings. -/
theorem after_of_mem {keyword : Keyword} {text : List Char} {place last : Cursor text}
    (member : last ∈ (Expr.sequences keyword.parts).ends place) :
    ∃ spelling ∈ keyword.spellings, place.after = spelling ++ last.after := by
  obtain ⟨middle, ahead, rest⟩ := Expr.after_of_mem_literals member
  cases starred : keyword.starred with
  | false =>
    rw [starred] at rest
    obtain rfl : last = middle := by simpa [Expr.sequences, Expr.ends] using rest
    exact ⟨keyword.letters, List.mem_cons_self, ahead⟩
  | true =>
    rw [starred] at rest
    rcases Expr.mem_optional rest with rfl | asterisk
    · exact ⟨keyword.letters, List.mem_cons_self, ahead⟩
    · refine ⟨keyword.letters ++ ['*'], by simp [spellings, starred], ?_⟩
      rw [ahead, Expr.after_of_mem_literal asterisk, List.append_assoc, List.singleton_append]

end Keyword

/-- The characters that may follow a keyword. -/
def keywordFollowers : CharClass :=
  [' ', '.', '\x7b', '[', ')', ';'].foldl (fun set sign => .union set (.single sign)) .nothing

/-- What a list of keywords is read as. -/
def keywordsExpr (words : List Keyword) : Expr :=
  .sequences [.assertion .wordBoundary,
    .capture 1 (.alternatives (captures 1 (words.map Keyword.parts))),
    .look .ahead false (.one (some keywordFollowers))]

/-- The text of a pattern of keywords. -/
theorem keywords_text (list : List String) : (Pattern.keywords list).wrapped.toList =
    '\\' :: 'b' :: '(' :: (alternativesText (list.map String.toList) ++ ')' ::
      Pattern.keywordEnd.toList) := by
  have unset : ({} : Flags).letters = "" := by decide
  simp only [Pattern.keywords, Pattern.wrapped, unset, alternativesText, List.map_map]
  simp [Function.comp_def]

/-- The look at what follows is the last part of a pattern of keywords. -/
theorem reads_keyword_end (bound groups : Nat) (level : Regex.Parser.Level) (waiting : Option Expr) :
    Reads bound { groups, level, waiting } Pattern.keywordEnd.toList
      { groups
        level := (level.behind waiting).add (.look .ahead false (.one (some keywordFollowers))) } := by
  have list : Pattern.keywordEnd.toList = '(' :: '?' :: '=' :: '[' ::
      [' ', '\\', '.', '\x7b', '\\', '[', '\\', ')', ';', ']', ')'] := by decide +kernel
  have looks (position : Nat) :
      part bound { groups, level := level.behind waiting } position '('
          ('?' :: '=' :: '[' ::
            [' ', '\\', '.', '\x7b', '\\', '[', '\\', ')', ';', ']', ')']) =
        .ok ({ groups, enclosing := [(.look .ahead false, level.behind waiting)] }, 2) := by
    simp [part, openGroup, opening, maximalDepth, blanks, blank, bind, Except.bind, pure,
      Except.pure]
  have lists (position : Nat) :
      part bound { groups, enclosing := [(.look .ahead false, level.behind waiting)] } position '['
          [' ', '\\', '.', '\x7b', '\\', '[', '\\', ')', ';', ']', ')'] =
        .ok ({ groups
               enclosing := [(.look .ahead false, level.behind waiting)]
               waiting := some (.one (some keywordFollowers)) }, 10) := by
    simp [part, bracket, bracketItems]
    cbv
  rw [list]
  refine Reads.of_part 2 ⟨rfl, fun position => rfl⟩ looks ?_
  refine Reads.of_part 10 ⟨rfl, fun position => rfl⟩ lists ?_
  exact Reads.of_part 0 ⟨rfl, fun position => rfl⟩ (fun position => rfl) reads_end

/-- A list of keywords is read as their alternatives. -/
theorem keywords_read {list : List String} {words : List Keyword} (filled : words ≠ [])
    (plain : ∀ word ∈ words, ∀ letter ∈ word.letters, Unicode.isAsciiWord letter)
    (texts : list.map String.toList = words.map Keyword.text) :
    parse (Pattern.keywords list).wrapped.toList = .ok (keywordsExpr words) := by
  let pairs := words.map fun word => (word.text, word.parts)
  have textual : words.map Keyword.text = pairs.map Prod.fst := by simp [pairs]
  have structural : words.map Keyword.parts = pairs.map Prod.snd := by simp [pairs]
  have fragments : ∀ pair ∈ pairs, Fragment pair.1 pair.2 := by
    intro pair listed
    obtain ⟨word, member, rfl⟩ := List.mem_map.mp listed
    exact Keyword.fragment (plain word member)
  have nonempty : pairs ≠ [] := by simpa [pairs] using filled
  rw [keywords_text, texts, textual, parse, keywordsExpr, structural]
  suffices reads : ∀ bound, Reads bound {}
      ('\\' :: 'b' :: '(' :: (alternativesText (pairs.map Prod.fst) ++ ')' ::
        Pattern.keywordEnd.toList))
      { groups := 1 + pairs.length
        level := ⟨[], [.look .ahead false (.one (some keywordFollowers)),
          .capture 1 (.alternatives (captures 1 (pairs.map Prod.snd))),
          .assertion .wordBoundary]⟩ } by
    rw [reads]
    rfl
  intro bound
  refine Reads.of_part 1 ⟨rfl, fun position => rfl⟩ (fun position => rfl) ?_
  change Reads bound _ ('(' :: (alternativesText (pairs.map Prod.fst) ++ ')' ::
        Pattern.keywordEnd.toList)) _
  refine Reads.of_open (by decide) (fresh_alternatives nonempty fragments _) ?_
  exact Reads.of_alternatives nonempty fragments (by decide) (reads_keyword_end _ _ _ _)

/-- A capture group of a list matches what one of the listed parts matches. -/
theorem exists_of_mem_captures {groups : Nat} {list : List (List Expr)} {option : Expr}
    (listed : option ∈ captures groups list) :
    ∃ parts ∈ list, ∃ group, option = .capture group (.sequences parts) := by
  induction list generalizing groups with
  | nil => cases listed
  | cons parts others induction =>
    rcases List.mem_cons.mp listed with rfl | further
    · exact ⟨parts, List.mem_cons_self, _, rfl⟩
    · obtain ⟨chosen, member, same⟩ := induction further
      exact ⟨chosen, List.mem_cons_of_mem _ member, same⟩

/-- A match of a list of keywords begins at the begin or end of a word, spells one of the
keywords, and is followed by one of the signs that may follow a keyword. -/
theorem keywords_match {words : List Keyword} (filled : words ≠ []) {text : List Char}
    {place last : Cursor text} (member : last ∈ (keywordsExpr words).ends place) :
    ∃ word ∈ words, ∃ spelling ∈ word.spellings, ∃ follower rest,
      place.after = spelling ++ last.after ∧ last.after = follower :: rest ∧
      keywordFollowers.contains follower := by
  obtain ⟨begun, boundary, others⟩ := Expr.mem_sequences_cons.mp member
  obtain ⟨rfl, _⟩ := Expr.mem_assertion boundary
  obtain ⟨ended, spelled, look⟩ := Expr.mem_sequences_cons.mp others
  obtain ⟨rfl, reached, follows⟩ := Expr.mem_look_ahead look
  obtain ⟨follower, ahead, contained⟩ := CharClass.after_of_mem_ends follows
  have nonempty : captures 1 (words.map Keyword.parts) ≠ [] := by
    obtain ⟨word, others, rfl⟩ := List.exists_cons_of_ne_nil filled
    exact List.cons_ne_nil _ _
  obtain ⟨option, listed, matched⟩ := Expr.exists_of_mem_alternatives nonempty spelled
  obtain ⟨parts, member, group, rfl⟩ := exists_of_mem_captures listed
  obtain ⟨word, chosen, rfl⟩ := List.mem_map.mp member
  obtain ⟨spelling, spells, passed⟩ := Keyword.after_of_mem matched
  exact ⟨word, chosen, spelling, spells, follower, reached.after, passed, ahead, contained⟩

end Highlighter

import Highlighter.Proofs.Dart.Sparing
import Highlighter.Proofs.Highlight.Shallow
import Highlighter.Proofs.Highlight.Wrapping
import Highlighter.Proofs.Markup.Nesting

/-!
# When the tags of a marked text are whole

Marking a text by the grammar of Dart leaves whole and nested tags around the text, unless
the pass of literals ends a match with the quote that begins an attribute. This happens
where a keyword is marked inside of an open literal: the quote of its tag then closes the
literal. The closing tag of the literal comes behind this quote and tears the tag of the
keyword, and no later pass mends it.

No other pass can do this, whatever the text holds.
-/

namespace Highlighter

open Markup
open Highlight (passes)

/-- The run over the text of a page leaves whole tags behind, of the categories of the plan,
balanced and nested. Without the tags, the text is as it was. -/
def Intact (source : String) : Prop :=
  Tagged (Grammar.dart.plan.map Prod.fst) 0
    (highlight Grammar.dart (Entity.escapeText source)).content.toList
    (Entity.escapeText source).toList

/-- The pass of literals, as it comes to the content, has a match that ends with the quote that
begins an attribute. -/
def LiteralTearsTag (content : String) : Prop :=
  ∃ pattern regex, Grammar.dart.literals = some pattern ∧
    pattern.compile (Pattern.searchLimit content) = .ok regex ∧
    ∃ entry ∈ (regex.scan content.toList).found, html.opening.toList <:+ entry.matched

/-- The text of a page with its keywords marked. -/
def keywordsMarked (source : String) : String :=
  (passes html [(.keyword, Grammar.dart.keywords)] (Entity.escapeText source)).content

/-- The marked text is what the pass leaves. As an equation of functions this is checked by
unfolding the definition only; the pass itself is not run. -/
theorem keywords_marked_eq (source : String) : keywordsMarked source =
    (passes html [(.keyword, Grammar.dart.keywords)] (Entity.escapeText source)).content :=
  congrFun (show keywordsMarked = fun source =>
    (passes html [(.keyword, Grammar.dart.keywords)] (Entity.escapeText source)).content from rfl)
    source

namespace Highlight

/-- Tidy passes keep the pieces nested. -/
theorem Layered.nested {categories passed : List Category} (listed : passed ⊆ categories)
    {tokens result : List Token} (layered : Layered True passed tokens result) {depth final : Nat}
    (nested : Nested categories depth tokens final) : Nested categories depth result final := by
  induction layered with
  | stopped orderly => exact nested
  | pass first others induction =>
    exact induction (fun _ member => listed (List.mem_cons_of_mem _ member))
      (first.nested (listed List.mem_cons_self) nested)

/-- Passes keep the characters of the source. -/
theorem Layered.sources_eq {tidy : Prop} {passed : List Category} {tokens result : List Token}
    (layered : Layered tidy passed tokens result) : sources result = sources tokens := by
  induction layered with
  | stopped orderly => rfl
  | pass first others induction => rw [induction, first.sources_eq]

/-- Tidy passes mend no tear. -/
theorem Layered.torn {passed : List Category} {tokens result : List Token}
    (layered : Layered True passed tokens result) (torn : Torn tokens) : Torn result := by
  induction layered with
  | stopped orderly => exact torn
  | pass first others induction => exact induction (first.torn torn)

end Highlight

namespace Highlight

/-- A match that ends with the quote that begins an attribute leaves torn pieces.

Proof: the closing tag comes directly behind the match, so it stands where the class name
belongs. -/
theorem Settles.torn {category : Category} {pattern : Pattern} {content : String} {first : Run}
    (settles : Settles html content (category, some pattern) first) {regex : Regex}
    (compiled : pattern.compile (Pattern.searchLimit content) = .ok regex)
    {entry : Regex.Found} (listed : entry ∈ (regex.scan content.toList).found)
    (tears : html.opening.toList <:+ entry.matched) {tokens : List Token}
    (orderly : Orderly false tokens) (text : written tokens = first.content.toList)
    (present : pattern.isEmpty = false) : Torn tokens := by
  have filled : entry.matched.isEmpty = false := by
    obtain ⟨begun, same⟩ := tears
    rw [← same]
    cases begun <;> rfl
  cases settles with
  | skipped absent =>
    rw [active_some_iff.mpr ⟨rfl, present⟩] at absent
    cases absent
  | @completed _ _ actual _ again ended =>
    rw [Content.text_string] at again text
    obtain rfl : regex = actual := Except.ok.inj (compiled.symm.trans again)
    obtain ⟨former, latter, found⟩ := List.append_of_mem listed
    obtain ⟨begun, same⟩ := tears
    have marks : (regex.scan content.toList).marked.length ≠ 0 := by
      intro none
      have member : entry ∈ (regex.scan content.toList).marked :=
        List.mem_filter.mpr ⟨listed, by rw [filled]; rfl⟩
      rw [List.eq_nil_of_length_eq_zero none] at member
      cases member
    rw [RunOn.ofPass, if_neg marks, Content.replace_string, String.toList_ofList] at text
    change _ = marking html category (regex.scan content.toList).found _ at text
    rw [found, marking_append html category filled, ← same] at text
    have cut : written tokens = marking html category former
        (entry.gap ++ (html.opened category ++ begun)) ++ (html.opening.toList ++
          (html.closing.toList ++ marking html category latter (regex.scan content.toList).rest)) := by
      rw [text]
      simp only [marking, Markup.wrap, List.append_assoc]
    exact torn_of_text orderly cut

end Highlight

/-- Source characters are nested at any depth. -/
theorem Markup.nested_source {categories : List Category} {depth : Nat} (text : List Char) :
    Nested categories depth (text.map Token.source) depth := by
  induction text with
  | nil => exact .nil
  | cons character others induction => exact .source induction

/-- The plan of Dart behind keywords and literals. -/
def laterPlan : List (Category × Option Pattern) := Grammar.dart.plan.drop 2

/-- How the plan behind keywords and literals is read. -/
theorem later_read : List.Forall₂ Grammar.ReadAs laterPlan (Dart.plan.drop 2) := by
  obtain ⟨_, _, function, number, type, comment⟩ := Dart.entries_read
  exact .cons function (.cons number (.cons type (.cons comment .nil)))

/-- The text with its keywords marked consists of nested pieces around the source. -/
theorem keywords_nested (source : String) :
    ∃ tokens, Orderly false tokens ∧ written tokens = (keywordsMarked source).toList ∧
      Nested (Grammar.dart.plan.map Prod.fst) 0 tokens 0 ∧
      sources tokens = source.toList.map Token.source := by
  have tidy : ∀ part ∈ [(Category.keyword, keywordsExpr Dart.words)],
      ∃ neat, Spares neat part.2 ∧ (True → ∀ matched, neat matched) := by
    intro part listed
    obtain rfl := List.mem_singleton.mp listed
    exact ⟨_, Dart.spares_keywords, fun _ _ => trivial⟩
  obtain ⟨tokens, layered, text⟩ := Highlight.passes_layered (.cons Dart.entries_read.1 .nil) tidy
    (orderly_source source.toList) (written_source source)
  rw [keywords_marked_eq]
  refine ⟨tokens, layered.orderly, text, layered.nested ?_ (nested_source _), ?_⟩
  · exact List.cons_subset.mpr ⟨List.mem_cons_self, List.nil_subset _⟩
  · rw [layered.sources_eq, sources_source]

/-- The passes behind keywords and literals are tidy. -/
theorem later_layered {tokens : List Token} (orderly : Orderly false tokens) {content : String}
    (text : written tokens = content.toList) :
    ∃ result, Highlight.Layered True (laterPlan.map Prod.fst) tokens result ∧
      written result = (passes html laterPlan content).content.toList := by
  have tidy : ∀ part ∈ Dart.plan.drop 2,
      ∃ neat, Spares neat part.2 ∧ (True → ∀ matched, neat matched) := by
    intro part listed
    simp only [Dart.plan, List.drop_succ_cons, List.drop_zero, List.mem_cons, List.not_mem_nil,
      or_false] at listed
    rcases listed with rfl | rfl | rfl | rfl
    · exact ⟨_, Dart.spares_functions, fun _ _ => trivial⟩
    · exact ⟨_, Dart.spares_numbers, fun _ _ => trivial⟩
    · exact ⟨_, Dart.spares_classes, fun _ _ => trivial⟩
    · exact ⟨_, Dart.spares_comments, fun _ _ => trivial⟩
  exact Highlight.passes_layered later_read tidy orderly text

/-- A run without an error has marked the literals behind the keywords, and then the others. -/
theorem literals_settle (source : String)
    (completes : (highlight Grammar.dart (Entity.escapeText source)).error = none) :
    ∃ first, Highlight.Settles html (keywordsMarked source) (.literal, Grammar.dart.literals) first ∧
      (highlight Grammar.dart (Entity.escapeText source)).content =
        (passes html laterPlan first.content).content := by
  have split : highlight Grammar.dart (Entity.escapeText source) =
      (passes html [(.keyword, Grammar.dart.keywords)] (Entity.escapeText source)).andThen
        (passes html ((.literal, Grammar.dart.literals) :: laterPlan)) := by
    have plan : Grammar.dart.plan = [(.keyword, Grammar.dart.keywords)] ++
        (.literal, Grammar.dart.literals) :: laterPlan := rfl
    rw [highlight, highlightWith, plan]
    exact Highlight.passes_append _ _ _ _
  cases begun : (passes html [(.keyword, Grammar.dart.keywords)]
      (Entity.escapeText source)).error with
  | some error =>
    rw [split, RunOn.and_then_failed begun, begun] at completes
    cases completes
  | none =>
    rw [split, RunOn.and_then_completed begun] at completes ⊢
    rw [← keywords_marked_eq] at completes ⊢
    rcases Highlight.passes_head html (.literal, Grammar.dart.literals) (keywordsMarked source) with
      ⟨first, settles, onward⟩ | ⟨_, _, _, _, _, failed⟩
    · refine ⟨first, settles, ?_⟩
      rw [onward, RunOn.and_then_completed settles.error_none]
    · rw [failed] at completes
      cases completes

/-- Where the pass of literals tears a tag, the tags are not whole at the end.

Proof: there are torn pieces behind this pass, and no later pass mends them. -/
theorem LiteralTearsTag.not_intact {source : String} (torn : LiteralTearsTag (keywordsMarked source))
    (completes : (highlight Grammar.dart (Entity.escapeText source)).error = none) :
    ¬ Intact source := by
  obtain ⟨tokens, orderly, text, _, _⟩ := keywords_nested source
  obtain ⟨first, settles, final⟩ := literals_settle source completes
  obtain ⟨_, ⟨_, pattern, present, filled, means⟩, _⟩ := Dart.entries_read
  obtain ⟨actual, regex, again, compiled, entry, listed, tears⟩ := torn
  obtain rfl : pattern = actual := Option.some.inj (present.symm.trans again)
  rw [show Grammar.dart.literals = some pattern from present] at settles
  obtain ⟨marked, wrapped, reached⟩ := settles.wraps means Dart.spares_literals False.elim
    orderly text
  have torn := settles.torn compiled listed tears wrapped.orderly reached filled
  obtain ⟨result, layered, last⟩ := later_layered wrapped.orderly reached
  intro intact
  rw [Intact, final, ← last] at intact
  exact (layered.torn torn).not_tagged intact

/-- The tags of a marked text are whole unless the pass of literals tears one.

Proof: the text behind the keywords consists of nested pieces. If the literals tear no tag,
their pass and the later ones are tidy and keep it so. -/
theorem intact_iff (source : String)
    (completes : (highlight Grammar.dart (Entity.escapeText source)).error = none) :
    Intact source ↔ ¬ LiteralTearsTag (keywordsMarked source) := by
  constructor
  · exact fun intact torn => torn.not_intact completes intact
  · intro whole
    obtain ⟨tokens, orderly, text, nested, same⟩ := keywords_nested source
    obtain ⟨first, settles, final⟩ := literals_settle source completes
    obtain ⟨_, ⟨_, pattern, present, _, means⟩, _⟩ := Dart.entries_read
    change Grammar.dart.literals = some pattern at present
    rw [present] at settles
    obtain ⟨marked, wrapped, reached⟩ := settles.wraps means Dart.spares_literals
      (fun _ regex compiled entry listed tears =>
        whole ⟨pattern, regex, present, compiled, entry, listed, tears⟩) orderly text
    obtain ⟨result, layered, last⟩ := later_layered wrapped.orderly reached
    have listed : Category.literal ∈ Grammar.dart.plan.map Prod.fst := by decide
    have tagged := (layered.nested (by decide) (wrapped.nested listed nested)).tagged
    rwa [layered.sources_eq, wrapped.sources_eq, same, written_source, last, ← final] at tagged

namespace Highlight

/-- A pass whose pattern is read as an expression marks what the matcher of the expression
finds. -/
theorem passes_of_read {markup : Markup} {category : Category} {pattern : Pattern}
    {expression : Regex.Expr} (reads : pattern.ReadAs expression)
    (present : pattern.isEmpty = false) {made : Regex.Matcher}
    (matched : Regex.Compile.matcher expression = .ok made) {content : String}
    (ended : (Regex.scan ⟨made, Pattern.searchLimit content⟩ content.toList).problem = none)
    (others : List (Category × Option Pattern)) :
    passes markup ((category, some pattern) :: others) content =
      (RunOn.ofPass category content
        (String.ofList ((Regex.scan ⟨made, Pattern.searchLimit content⟩ content.toList).withMarkup
          markup category))
        (Regex.scan ⟨made, Pattern.searchLimit content⟩ content.toList).marked.length).andThen
          (passes markup others) := by
  have marks : pass markup category pattern content =
      .ok ((Regex.scan ⟨made, Pattern.searchLimit content⟩ content.toList).marked.length,
        String.ofList ((Regex.scan ⟨made, Pattern.searchLimit content⟩ content.toList).withMarkup
          markup category)) := by
    rw [pass, reads.compile_eq matched]
    simp only [ended]
  rw [passes, active_some_iff.mpr ⟨rfl, present⟩]
  simp only [Content.text_string, marks]
  cases (Regex.scan ⟨made, Pattern.searchLimit content⟩ content.toList).marked.length <;>
    simp [RunOn.ofPass, RunOn.andThen]

end Highlight

/-- Beside a keyword that no quote comes before, nothing is torn. -/
theorem intact_iff_beside_keyword :
    (highlight Grammar.dart (Entity.escapeText "is ")).error = none ∧
      (Intact "is " ↔ ¬ LiteralTearsTag (keywordsMarked "is ")) := by
  have completes : (highlight Grammar.dart (Entity.escapeText "is ")).error = none :=
    (Dart.shallow_of_length (by decide)).completes
  exact ⟨completes, intact_iff "is " completes⟩

/-- A keyword behind an open quote is torn: the run completes, and the class name of the keyword
stands outside of its tag. -/
theorem keyword_behind_quote_torn :
    (highlight Grammar.dart (Entity.escapeText "\"var x")).error = none ∧ ¬ Intact "\"var x" := by
  have completes : (highlight Grammar.dart (Entity.escapeText "\"var x")).error = none :=
    (Dart.shallow_of_length (by decide)).completes
  have marked : keywordsMarked "\"var x" = "\"<span class=\"code-keyword\">var</span> x" := by
    have first : keywordsMarked "\"var x" =
        (passes html [(.keyword, some (Pattern.keywords Grammar.dartKeywords))] "\"var x").content := by
      have plain : Entity.escapeText "\"var x" = "\"var x" := by decide
      rw [keywords_marked_eq, plain]
      rfl
    have compiled := Dart.keywords_read.compile_eq Dart.keywords_matcher
      (Pattern.searchLimit "\"var x")
    have reliable := Highlight.dart_reliable (.keyword, Grammar.dart.keywords)
      List.mem_cons_self _ rfl
    rw [first, Highlight.passes_of_read Dart.keywords_read (by decide +kernel)
      Dart.keywords_matcher (reliable.scan_ended trivial compiled)]
    decide +kernel
  refine ⟨completes, LiteralTearsTag.not_intact ?_ completes⟩
  rw [marked]
  obtain ⟨_, ⟨_, pattern, present, _, means⟩, _⟩ := Dart.entries_read
  refine ⟨pattern, _, present, means.compile_eq Dart.literals_matcher _,
    ⟨[], "\"<span class=\"".toList⟩, ?_, List.suffix_cons _ _⟩
  decide +kernel

end Highlighter

import Highlighter.Proofs.Highlight.Injection
import Highlighter.Proofs.Highlight.Integrity

/-!
# A single pass over a well tagged text

A text is well tagged if its tags are whole, balanced and nested and each `&` begins an
entity. Such a text need not come from a run. It is read back into nested pieces, so what
is known of pieces holds of it: a pass of Dart leaves it well tagged, with the same text
without the tags, and no match begins or ends inside of a tag or an entity.

The pass of literals is the exception. It keeps this where no double quote stands outside of
the tags, because then every literal begins and ends with a single quote, which no tag has.
-/

namespace Highlighter

open Text (Cursor)
open Regex (Expr Found)
open Markup
open Highlight (pass)

/-- The text has whole, balanced and nested tags of the categories of the plan, and is the
source without them; each `&` in it begins an entity. -/
structure WellTagged (text source : List Char) : Prop where
  tagged : Tagged (Grammar.dart.plan.map Prod.fst) 0 text source
  entities : ∀ before after, text = before ++ '&' :: after →
    "&amp;".toList <+: '&' :: after ∨ "&lt;".toList <+: '&' :: after ∨
      "&gt;".toList <+: '&' :: after

/-- Whole tags and entities. -/
def tagsAndEntities : List (List Char) :=
  html.closing.toList :: ["&amp;", "&lt;", "&gt;"].map String.toList ++
    (Grammar.dart.plan.map fun entry => html.opened entry.1)

/-- The place with this text before it and that text behind it is inside of a tag or an entity:
a part of it stands before the place, and the other part behind. -/
def Inside (before after : List Char) : Prop :=
  ∃ passed ahead, passed ++ ahead ∈ tagsAndEntities ∧ passed ≠ [] ∧ ahead ≠ [] ∧
    passed <:+ before ∧ ahead <+: after

/-- All matches of the scan begin and end outside of tags and entities. -/
def Regex.Scan.Outside (scan : Scan) : Prop :=
  ∀ former entry latter, scan.found = former ++ entry :: latter →
    ¬ Inside (former.flatMap Found.text ++ entry.gap)
        (entry.matched ++ (latter.flatMap Found.text ++ scan.rest)) ∧
      ¬ Inside (former.flatMap Found.text ++ entry.gap ++ entry.matched)
        (latter.flatMap Found.text ++ scan.rest)

namespace Markup

variable {categories : List Category} {depth final : Nat}

/-- Behind characters that begin no tag, a tagged text is tagged. -/
theorem Tagged.behind {stretch text source : List Char} (plain : '<' ∉ stretch)
    (tagged : Tagged categories depth (stretch ++ text) source) :
    ∃ rest, source = stretch ++ rest ∧ Tagged categories depth text rest := by
  induction stretch generalizing source with
  | nil => exact ⟨source, rfl, tagged⟩
  | cons character others induction =>
    have different : character ≠ '<' := fun same => plain (same ▸ List.mem_cons_self)
    rw [List.cons_append] at tagged
    generalize whole : character :: (others ++ text) = begun at tagged
    cases tagged with
    | done => cases whole
    | text _ onward =>
      obtain ⟨rfl, rfl⟩ := List.cons.inj whole
      obtain ⟨rest, rfl, behind⟩ := induction (fun listed => plain (List.mem_cons_of_mem _ listed))
        onward
      exact ⟨rest, rfl, behind⟩
    | opened _ _ => exact absurd (List.cons.inj whole).1 different
    | closed _ => exact absurd (List.cons.inj whole).1 different

/-- A tagged text in which each `&` begins an entity consists of nested pieces.

Proof: induction over the length of the text, because an entity is one piece of several
characters. -/
theorem Tagged.nested {text source : List Char} (tagged : Tagged categories depth text source)
    (entities : ∀ before after, text = before ++ '&' :: after →
      ∃ character ∈ ['&', '<', '>'], (Token.source character).text <+: '&' :: after) :
    ∃ tokens, Nested categories depth tokens 0 ∧ written tokens = text ∧
      written (sources tokens) = source := by
  induction size : text.length using Nat.strong_induction_on generalizing depth text source with
  | _ length induction =>
    have onward {stretch rest : List Char} (split : text = stretch ++ rest) :
        ∀ before after, rest = before ++ '&' :: after →
          ∃ character ∈ ['&', '<', '>'], (Token.source character).text <+: '&' :: after :=
      fun before after cut => entities (stretch ++ before) after
        (by rw [split, cut, List.append_assoc])
    -- A piece of the source in front of what is known to consist of pieces.
    have extend (character : Char) (rest : List Char)
        (split : text = (Token.source character).text ++ rest)
        (unopened : '<' ∉ (Token.source character).text) :
        ∃ tokens, Nested categories depth tokens 0 ∧ written tokens = text ∧
          written (sources tokens) = source := by
      have shorter : rest.length < length := by
        have begun := List.length_pos_iff.mpr (text_ne_nil (.source character))
        rw [← size, split, List.length_append]
        omega
      obtain ⟨remaining, rfl, behind⟩ := Tagged.behind unopened (split ▸ tagged)
      obtain ⟨tokens, nested, same, sourced⟩ := induction _ shorter behind (onward split) rfl
      refine ⟨.source character :: tokens, .source nested, ?_, ?_⟩
      · rw [written_cons, same, split]
      · rw [← sourced]
        exact written_cons _ _
    cases tagged with
    | done => exact ⟨[], .nil, rfl, rfl⟩
    | @text _ character text source plain others =>
      by_cases special : Entity.isSpecial character
      · obtain rfl : character = '&' := by
          simpa [Entity.isSpecial, plain.1, plain.2] using special
        obtain ⟨character, either, rest, same⟩ := entities [] text rfl
        have unopened : ∀ character ∈ ['&', '<', '>'], '<' ∉ (Token.source character).text := by
          decide
        exact extend character rest same.symm (unopened character either)
      · have single : (Token.source character).text = [character] :=
          text_of_plain (by simpa using special)
        refine extend character text (by rw [single]; rfl) ?_
        rw [single, List.mem_singleton]
        exact plain.1.symm
    | @opened _ category text _ listed others =>
      have shorter : text.length < length := by
        have begun : 0 < (html.opened category).length := by cases category <;> decide
        rw [← size, List.length_append]
        omega
      obtain ⟨tokens, nested, same, sourced⟩ := induction _ shorter others (onward rfl) rfl
      refine ⟨.opening :: .name category :: tokens, .opened listed nested, ?_, sourced⟩
      rw [written_cons, written_cons, same, Markup.opened]
      simp only [Token.text, List.append_assoc]
    | @closed depth text _ others =>
      have shorter : text.length < length := by
        rw [← size, List.length_append]
        exact Nat.lt_add_of_pos_left (by decide)
      obtain ⟨tokens, nested, same, sourced⟩ := induction _ shorter others (onward rfl) rfl
      refine ⟨.closing :: tokens, .closed nested, ?_, sourced⟩
      rw [written_cons, same]
      rfl

/-- Nested pieces are orderly. -/
theorem Nested.orderly {tokens : List Token} (nested : Nested categories depth tokens final) :
    Orderly false tokens := by
  induction nested with
  | nil => rfl
  | source _ induction => exact orderly_cons_iff.mpr ⟨false, rfl, induction⟩
  | opened _ _ induction =>
    exact orderly_cons_iff.mpr ⟨true, rfl, orderly_cons_iff.mpr ⟨false, rfl, induction⟩⟩
  | closed _ induction => exact orderly_cons_iff.mpr ⟨false, rfl, induction⟩

/-- Behind orderly pieces the place is not inside of a tag or an entity.

Proof: what begins before the place like a tag or an entity begins one of the pieces before it,
and its last sign is before the place, too. -/
theorem orderly_not_inside {tokens : List Token} (orderly : Orderly false tokens)
    (after : List Char) : ¬ Inside (written tokens) after := by
  rintro ⟨passed, ahead, listed, begun, left, ⟨before, cut⟩, _⟩
  have shapes : ∀ piece ∈ tagsAndEntities,
      piece.head? = some '<' ∧ '>' ∉ piece.dropLast ∨
        piece.head? = some '&' ∧ ';' ∉ piece.dropLast := by decide
  obtain ⟨first, others, rfl⟩ := List.exists_cons_of_ne_nil begun
  have within : ∀ character ∈ first :: others,
      character ∈ ((first :: others) ++ ahead).dropLast := by
    intro character member
    rw [List.dropLast_append_of_ne_nil left]
    exact List.mem_append_left _ member
  rcases shapes _ listed with ⟨head, open'⟩ | ⟨head, open'⟩
  · obtain rfl := Option.some.inj head
    refine open' (within '>' ?_)
    obtain ⟨former, tag, latter, rfl, _, either, same⟩ := tag_at_less orderly cut.symm
    rw [same]
    rcases List.mem_pair.mp either with rfl | rfl
    · obtain ⟨middle, reached, rest⟩ := orderly_append_iff.mp orderly
      obtain ⟨inner, passes, rest⟩ := orderly_cons_iff.mp rest
      obtain rfl : inner = true := by
        cases middle with
        | false => exact (Option.some.inj passes).symm
        | true => cases passes
      obtain ⟨clean, further, named, _⟩ := name_ahead rest
      rw [named]
      simp
    · exact List.mem_append_left _ (by decide)
  · obtain rfl := Option.some.inj head
    refine open' (within ';' ?_)
    rcases (orderly_unbroken orderly).entities before others cut.symm with
      entity | entity | entity
    all_goals exact entity.subset (by decide)

end Markup

/-- A well tagged text consists of nested pieces. -/
theorem WellTagged.nested {text source : List Char} (tagged : WellTagged text source) :
    ∃ tokens, Nested (Grammar.dart.plan.map Prod.fst) 0 tokens 0 ∧ written tokens = text ∧
      written (sources tokens) = source := by
  refine tagged.tagged.nested fun before after cut => ?_
  rcases tagged.entities before after cut with entity | entity | entity
  · exact ⟨'&', by simp, entity⟩
  · exact ⟨'<', by simp, entity⟩
  · exact ⟨'>', by simp, entity⟩

/-- The text of nested pieces is well tagged. -/
theorem Markup.Nested.well_tagged {tokens : List Token}
    (nested : Nested (Grammar.dart.plan.map Prod.fst) 0 tokens 0) :
    WellTagged (written tokens) (written (sources tokens)) :=
  ⟨nested.tagged, (orderly_unbroken nested.orderly).entities⟩

/-- An escaped text is well tagged: it has no tags. -/
theorem WellTagged.of_text (text : String) :
    WellTagged (Entity.escapeText text).toList (Entity.escapeText text).toList := by
  have nested := (nested_source text.toList).well_tagged
  rwa [sources_source, written_source] at nested

namespace Dart

/-- Without a double quote outside of the tags, no literal ends with the begin of a tag: it lies
between single quotes. -/
theorem literals_end_tidily {text : List Char} {first last : Cursor text} {tokens : List Token}
    (preferred : (literals.ends first).head? = some last) (orderly : Orderly false tokens)
    (same : written tokens = text) (unquoted : '"' ∉ written (sources tokens)) :
    ¬ html.opening.toList <:+ first.slice last := by
  obtain ⟨former, rest, rfl, _, begins, _, ordered, _⟩ :=
    spares_literals.places preferred orderly same
  obtain ⟨option, listed, matched⟩ :=
    Expr.exists_of_mem_alternatives (by decide) (List.mem_of_mem_head? preferred)
  rcases List.mem_pair.mp listed with rfl | rfl
  · obtain ⟨stretch, ahead, _⟩ := quoted_match matched
    have slice : first.slice last = ('\'' :: stretch) ++ ['\''] :=
      Cursor.slice_of_after (by rw [ahead]; simp)
    rintro ⟨begun, whole⟩
    have final := congrArg List.getLast? (whole.trans slice)
    rw [List.getLast?_append_of_ne_nil _ (by decide), List.getLast?_concat] at final
    exact absurd final (by decide)
  · obtain ⟨stretch, ahead, _⟩ := quoted_match matched
    obtain ⟨latter, rfl, single, _, _⟩ := plain_source ordered (by decide) (begins.trans ahead)
    refine absurd ?_ unquoted
    rw [sources_append, sources_cons_source, written_append, written_cons, single]
    simp

/-- In a text with orderly pieces around the source, the matches of a pattern of Dart end outside
of tags, those of literals if the source has no double quote. -/
theorem plan_ends_tidily : ∀ part ∈ plan, ∃ neat, Spares neat part.2 ∧
    ∀ {text : List Char} {first last : Cursor text} {tokens : List Token},
      (part.2.ends first).head? = some last → Orderly false tokens → written tokens = text →
      (part.1 = .literal → '"' ∉ written (sources tokens)) → neat (first.slice last) := by
  intro part listed
  simp only [plan, List.mem_cons, List.not_mem_nil, or_false] at listed
  rcases listed with rfl | rfl | rfl | rfl | rfl | rfl
  · exact ⟨_, spares_keywords, fun _ _ _ _ => trivial⟩
  · exact ⟨_, spares_literals, fun preferred orderly same unquoted =>
      literals_end_tidily preferred orderly same (unquoted rfl)⟩
  · exact ⟨_, spares_functions, fun _ _ _ _ => trivial⟩
  · exact ⟨_, spares_numbers, fun _ _ _ _ => trivial⟩
  · exact ⟨_, spares_classes, fun _ _ _ _ => trivial⟩
  · exact ⟨_, spares_comments, fun _ _ _ _ => trivial⟩

end Dart

/-- A scan of Dart that comes to the end of a well tagged text finds matches that begin and end
outside of tags and entities, and what it marks is well tagged, with the same text without the tags.

Proof: the text consists of nested pieces. The matches begin and end between them outside of tags,
so marking puts stretches of whole pieces into tags. -/
theorem WellTagged.marked {category : Category} {pattern : Pattern}
    (planned : (category, some pattern) ∈ Grammar.dart.plan) {text source : List Char}
    (tagged : WellTagged text source) (unquoted : category = .literal → '"' ∉ source) {limit : Nat}
    {regex : Regex} (compiled : pattern.compile limit = .ok regex)
    (ended : (regex.scan text).problem = none) :
    WellTagged ((regex.scan text).withMarkup html category) source ∧ (regex.scan text).Outside := by
  obtain ⟨tokens, nested, whole, rfl⟩ := tagged.nested
  have orderly := nested.orderly
  obtain ⟨part, listed, same, actual, again, _, reads⟩ := Dart.exists_read planned
  obtain rfl : pattern = actual := Option.some.inj again
  obtain ⟨neat, spares, tidy⟩ := Dart.plan_ends_tidily part listed
  have unquoted : part.1 = .literal → '"' ∉ written (sources tokens) :=
    fun literal => unquoted (same.trans literal)
  obtain ⟨hits, scanned⟩ := Regex.scan_hits (reads.stands compiled) spares.consumes text ended
  have matched {former latter : List Found} {entry : Found}
      (split : (regex.scan text).found = former ++ entry :: latter) :
      ∃ hit : Cursor text × Cursor text,
        (part.2.ends hit.1).head? = some hit.2 ∧ neat (hit.1.slice hit.2) ∧
          entry.matched = hit.1.slice hit.2 ∧
          former.flatMap Found.text ++ entry.gap = hit.1.before.reverse := by
    rw [split] at scanned
    obtain ⟨hit, listed, matched, before, _⟩ := scanned.split spares.tame
    obtain ⟨preferred, _, _⟩ := scanned.preferred spares.tame hit listed
    exact ⟨hit, preferred, tidy preferred orderly whole unquoted, matched, before⟩
  constructor
  · have complete : True → ∀ entry ∈ (regex.scan text).found, neat entry.matched := by
      intro _ entry member
      obtain ⟨former, latter, split⟩ := List.append_of_mem member
      obtain ⟨hit, _, neatly, same, _⟩ := matched split
      exact same ▸ neatly
    obtain ⟨result, wrapped, flags, _⟩ :=
      hits_wrapped spares category scanned complete [] rfl orderly whole
    have kept := (wrapped.nested (List.mem_map_of_mem planned) nested).well_tagged
    rw [wrapped.sources_eq,
      written_of_cover ((scanned.text_after spares.tame).trans whole.symm) flags] at kept
    exact kept
  · intro former entry latter split
    obtain ⟨⟨first, last⟩, preferred, neatly, same, before⟩ := matched split
    obtain ⟨gap, rest, rfl, atFirst, _, begun, _, covered, _, middle, rfl, stretch, _, reached, _,
      outside⟩ := spares.places preferred orderly whole
    obtain rfl := outside neatly
    rw [same, before, ← atFirst, ← stretch, ← written_append]
    have ended : Orderly false (gap ++ covered) := orderly_append_iff.mpr ⟨false, begun, reached⟩
    exact ⟨orderly_not_inside begun _, orderly_not_inside ended _⟩

end Highlighter

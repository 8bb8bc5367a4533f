import Highlighter.Proofs.Highlight.Passes
import Highlighter.Proofs.Markup.Marking
import Highlighter.Proofs.Grammar.Pattern
import Highlighter.Proofs.Markup.Escaping

/-!
# Runs as rewritings of pieces

If every pattern of a plan spares the markup, a run over orderly text puts stretches of its
pieces into tags, one pass after another, and the text stays orderly. A run that fails has
done so up to the failing pass.
-/

namespace Highlighter

open Markup
open Regex (Expr)

/-- The text of a page is written with a source character for each character. -/
theorem Markup.written_source (text : String) :
    written (text.toList.map Token.source) = (Entity.escapeText text).toList := by
  rw [Entity.to_list_escape_text, written, List.flatMap_map]
  rfl

/-- Source characters are orderly. -/
theorem Markup.orderly_source (text : List Char) : Orderly false (text.map Token.source) := by
  induction text with
  | nil => rfl
  | cons character others induction => exact orderly_cons_iff.mpr ⟨false, rfl, induction⟩

namespace Highlight

/-- Passes of these categories have wrapped stretches of the pieces, one after another. The
last of them may be missing. -/
inductive Layered (tidy : Prop) : List Category → List Token → List Token → Prop where
  | stopped {categories : List Category} {tokens : List Token} (orderly : Orderly false tokens) :
      Layered tidy categories tokens tokens
  | pass {category : Category} {categories : List Category} {tokens middle result : List Token}
      (first : Wrapped tidy category false tokens middle)
      (others : Layered tidy categories middle result) :
      Layered tidy (category :: categories) tokens result

/-- What passes have made is orderly. -/
theorem Layered.orderly {tidy : Prop} {categories : List Category} {tokens result : List Token}
    (layered : Layered tidy categories tokens result) : Orderly false result := by
  induction layered with
  | stopped orderly => exact orderly
  | pass _ _ induction => exact induction

/-- A pass of an expression that spares the markup wraps stretches of the pieces. -/
theorem Settles.wraps {neat : List Char → Prop} {tidy : Prop} {category : Category}
    {pattern : Pattern} {expression : Expr} (reads : pattern.ReadAs expression)
    (spares : Spares neat expression) {content : String} {first : Run}
    (settles : Settles html content (category, some pattern) first)
    (complete : tidy → ∀ regex, pattern.compile (Pattern.searchLimit content) = .ok regex →
      ∀ entry ∈ (regex.scan content.toList).found, neat entry.matched)
    {tokens : List Token} (orderly : Orderly false tokens) (text : written tokens = content.toList) :
    ∃ result, Wrapped tidy category false tokens result ∧
      written result = first.content.toList := by
  cases settles with
  | skipped absent => exact ⟨tokens, .rest orderly, text⟩
  | completed _ compiled ended =>
    rw [Content.text_string] at compiled ended ⊢
    unfold RunOn.ofPass
    split
    · exact ⟨tokens, .rest orderly, text⟩
    · obtain ⟨hits, scanned⟩ :=
        Regex.scan_hits (reads.stands compiled) spares.consumes content.toList ended
      obtain ⟨result, wrapped, flags, _⟩ := hits_wrapped spares category scanned
        (fun tidy => complete tidy _ compiled) [] rfl orderly text
      have marked := written_of_cover ((scanned.text_after spares.tame).trans text.symm) flags
      exact ⟨result, wrapped, by rw [marked, Content.replace_string, String.toList_ofList]; rfl⟩

/-- A run of expressions that spare the markup wraps stretches of the pieces.

Proof: induction over the plan. An entry that settles wraps stretches and leaves orderly text
to the others; one that fails ends the run with what it has been given. -/
theorem passes_layered {tidy : Prop} {plan : List (Category × Option Pattern)}
    {parts : List (Category × Expr)} (reads : List.Forall₂ Grammar.ReadAs plan parts)
    (spares : ∀ part ∈ parts, ∃ neat, Spares neat part.2 ∧ (tidy → ∀ matched, neat matched))
    {content : String} {tokens : List Token} (orderly : Orderly false tokens)
    (text : written tokens = content.toList) :
    ∃ result, Layered tidy (parts.map Prod.fst) tokens result ∧
      written result = (passes html plan content).content.toList := by
  induction reads generalizing content tokens with
  | nil => exact ⟨tokens, .stopped orderly, text⟩
  | @cons entry part plan parts same others induction =>
    rcases passes_head html entry content with ⟨first, settles, begun⟩ | ⟨_, _, _, _, _, failed⟩
    · obtain ⟨neat, spared, implied⟩ := spares part List.mem_cons_self
      obtain ⟨category, entry⟩ := entry
      obtain ⟨rfl, pattern, rfl, _, means⟩ := same
      obtain ⟨middle, wrapped, reached⟩ := settles.wraps means spared
        (fun tidy _ _ _ _ => implied tidy _) orderly text
      obtain ⟨result, layered, final⟩ := induction
        (fun other listed => spares other (List.mem_cons_of_mem _ listed)) wrapped.orderly reached
      refine ⟨result, .pass wrapped layered, ?_⟩
      rw [begun, RunOn.and_then_completed settles.error_none]
      exact final
    · rw [failed]
      exact ⟨tokens, .stopped orderly, text⟩

end Highlight

end Highlighter

import Highlighter.Proofs.Markup.Nesting

/-!
# Quotes that stand within tags

The only quotes that markup brings are those of its attributes: two in each opening tag, with the
class name between them and `>` behind the second. So a text around a source without quotes has no
others, as long as its tags are whole. From each of its quotes it is no more than a class name to
the next one.
-/

namespace Highlighter.Markup

open Regex (Found)

/-- What is behind a quote ends the attribute or begins its value, so that the next quote ends
it. -/
def WithinTag (after : List Char) : Prop :=
  after.head? = some '>' ∨ ∃ clean rest, after = clean ++ '"' :: '>' :: rest ∧
    clean.length ≤ 40 ∧ ∀ character ∈ clean, character ≠ '"' ∧ character ≠ '\\'

/-- All double quotes are within tags. -/
def QuotesWithinTags (text : List Char) : Prop :=
  ∀ before after, text = before ++ '"' :: after → WithinTag after

/-- Before a character other than the quote, nothing has to be asked. -/
theorem quotes_cons {character : Char} {others : List Char}
    (first : character = '"' → WithinTag others) (further : QuotesWithinTags others) :
    QuotesWithinTags (character :: others) := by
  intro before after cut
  cases before with
  | nil =>
    obtain ⟨rfl, rfl⟩ := List.cons.inj cut
    exact first rfl
  | cons head before =>
    obtain ⟨_, rest⟩ := List.cons.inj cut
    exact further before after rest

/-- Text without quotes may stand before. -/
theorem quotes_append {former latter : List Char} (unquoted : '"' ∉ former)
    (further : QuotesWithinTags latter) : QuotesWithinTags (former ++ latter) := by
  induction former with
  | nil => exact further
  | cons character others induction =>
    obtain ⟨different, apart⟩ := not_or.mp (mt List.mem_cons.mpr unquoted)
    exact quotes_cons (fun same => absurd same.symm different) (induction apart)

/-- The quotes of an opening tag are within the tag. -/
theorem quotes_opened (category : Category) {others : List Char}
    (further : QuotesWithinTags others) :
    QuotesWithinTags (html.opened category ++ others) := by
  have name : '"' ∉ category.className.toList ∧ category.className.toList.length ≤ 40 ∧
      ∀ character ∈ category.className.toList, character ≠ '"' ∧ character ≠ '\\' := by
    cases category <;> decide
  have split : html.opened category ++ others = "<span class=".toList ++ ('"' ::
      (category.className.toList ++ '"' :: '>' :: others)) := by
    rw [opened, List.append_assoc, List.append_assoc]
    rfl
  rw [split]
  refine quotes_append (by decide) (quotes_cons (fun _ => .inr ⟨_, others, rfl, name.2⟩) ?_)
  refine quotes_append name.1 (quotes_cons (fun _ => .inl rfl) (quotes_cons ?_ further))
  exact fun same => absurd same (by decide)

/-- In a text without quotes, marking brings only those of the tags. -/
theorem marking_quotes (category : Category) {found : List Found} {rest : List Char}
    (filled : ∀ entry ∈ found, entry.matched.isEmpty = false)
    (unquoted : '"' ∉ found.flatMap Found.text ++ rest) :
    QuotesWithinTags (marking html category found rest) := by
  have closing : '"' ∉ html.closing.toList := by decide
  induction found with
  | nil =>
    intro before after cut
    rw [show marking html category [] rest = rest from rfl] at cut
    exact absurd (cut ▸ List.mem_append_right before List.mem_cons_self) unquoted
  | cons entry others induction =>
    rw [List.flatMap_cons, Found.text, List.append_assoc, List.append_assoc, List.mem_append,
      List.mem_append, not_or, not_or] at unquoted
    obtain ⟨gap, matched, further⟩ := unquoted
    have onward := induction (fun entry listed => filled entry (List.mem_cons_of_mem _ listed)) further
    rw [marking_filled category (filled entry List.mem_cons_self)]
    exact quotes_append gap (quotes_opened category (quotes_append matched
      (quotes_append closing onward)))

/-- Marking brings no single quotes. -/
theorem marking_single (category : Category) {found : List Found} {rest : List Char}
    (filled : ∀ entry ∈ found, entry.matched.isEmpty = false)
    (missing : '\'' ∉ found.flatMap Found.text ++ rest) :
    '\'' ∉ marking html category found rest := by
  have tags : '\'' ∉ html.opened category ∧ '\'' ∉ html.closing.toList := by
    cases category <;> decide
  induction found with
  | nil => exact missing
  | cons entry others induction =>
    rw [List.flatMap_cons, Found.text, List.append_assoc, List.append_assoc, List.mem_append,
      List.mem_append, not_or, not_or] at missing
    obtain ⟨gap, matched, further⟩ := missing
    have onward := induction (fun entry listed => filled entry (List.mem_cons_of_mem _ listed)) further
    rw [marking_filled category (filled entry List.mem_cons_self)]
    simp only [List.mem_append, not_or]
    exact ⟨gap, tags.1, matched, tags.2, onward⟩

/-- Around a source without double quotes all of them are within tags.

Proof: induction over the tagged text. Only an opening tag has quotes. -/
theorem Tagged.within_tags {categories : List Category} {depth : Nat} {text source : List Char}
    (tagged : Tagged categories depth text source) (unquoted : '"' ∉ source) :
    QuotesWithinTags text := by
  induction tagged with
  | done => exact fun before after cut => absurd cut (by simp)
  | text _ _ induction =>
    obtain ⟨different, further⟩ := not_or.mp (mt List.mem_cons.mpr unquoted)
    exact quotes_cons (fun same => absurd same.symm different) (induction further)
  | opened _ _ induction => exact quotes_opened _ (induction unquoted)
  | closed _ induction => exact quotes_append (by decide) (induction unquoted)

/-- Around a source without single quotes there are none. -/
theorem Tagged.single_missing {categories : List Category} {depth : Nat} {text source : List Char}
    (tagged : Tagged categories depth text source) (missing : '\'' ∉ source) : '\'' ∉ text := by
  induction tagged with
  | done => exact missing
  | text _ _ induction =>
    obtain ⟨different, further⟩ := not_or.mp (mt List.mem_cons.mpr missing)
    exact fun listed => (List.mem_cons.mp listed).elim different (induction further)
  | @opened _ category _ _ _ _ induction =>
    have tag : '\'' ∉ html.opened category := by cases category <;> decide
    exact fun listed => (List.mem_append.mp listed).elim tag (induction missing)
  | closed _ induction =>
    exact fun listed => (List.mem_append.mp listed).elim (by decide) (induction missing)

end Highlighter.Markup

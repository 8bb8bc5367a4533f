import Highlighter.Proofs.Grammar.Pattern
import Highlighter.Proofs.Regex.Repeats

/-!
# Where keywords are found

A list of keywords has at most one match from a place on, if none of the signs that may follow
a keyword is one that keywords are made of: the letters ahead are a keyword as a whole, or none
is there. So one keyword may be the begin of another, and the order of the list does not matter,
although the first of the alternatives is preferred that the matcher can go on behind.
`Keyword.Leads` says what has to be ahead, and what is left behind the match.
-/

namespace Highlighter

open Text (Cursor)
open Regex (Expr CharClass)
open Regex.Parser (captures)
open Regex.Assertion (startsWithWord)

variable {text : List Char} {first last : Cursor text} {words : List Keyword} {kind : Char → Bool}

/-- What a keyword can be spelled as is matched by it. -/
theorem Keyword.mem_of_spelling {keyword : Keyword} {spelling : List Char}
    (spells : spelling ∈ keyword.spellings) (ahead : first.after = spelling ++ last.after) :
    last ∈ (Expr.sequences keyword.parts).ends first := by
  have here (place : Cursor text) : place ∈ (Expr.sequences []).ends place :=
    List.mem_singleton_self place
  unfold Keyword.spellings at spells
  unfold Keyword.parts
  cases starred : keyword.starred with
  | false =>
    rw [starred] at spells
    obtain rfl := List.mem_singleton.mp spells
    exact Expr.mem_literals ahead (here last)
  | true =>
    rw [starred] at spells
    rcases List.mem_pair.mp spells with rfl | rfl
    · refine Expr.mem_literals ahead ?_
      change last ∈ (Expr.repetition (.literal '*' false) 0 (some 1) true).ends last
      rw [Expr.optional_ends]
      exact List.mem_append_right _ (List.mem_singleton_self last)
    · rw [List.append_assoc] at ahead
      obtain ⟨middle, behind, _⟩ := Cursor.exists_behind ahead
      have letters : first.after = keyword.letters ++ middle.after := by rw [ahead, behind]
      refine Expr.mem_literals letters ?_
      change last ∈ (Expr.repetition (.literal '*' false) 0 (some 1) true).ends middle
      obtain ⟨reached, asterisk, same⟩ :=
        CharClass.mem_ends_of_after behind (CharClass.contains_single.mpr rfl)
      obtain rfl : reached = last := Cursor.eq_of_after same
      rw [Expr.optional_ends]
      exact List.mem_append_left _ asterisk

/-- Each part of a list has its capture group. -/
theorem exists_capture (groups : Nat) {list : List (List Expr)} {parts : List Expr}
    (listed : parts ∈ list) : ∃ group, Expr.capture group (.sequences parts) ∈ captures groups list := by
  induction list generalizing groups with
  | nil => cases listed
  | cons head others induction =>
    rcases List.mem_cons.mp listed with rfl | further
    · exact ⟨_, List.mem_cons_self⟩
    · obtain ⟨group, member⟩ := induction (groups + 1) further
      exact ⟨group, List.mem_cons_of_mem _ member⟩

/-- The signs that may follow a keyword. -/
theorem keyword_followers_contain {sign : Char} :
    keywordFollowers.contains sign ↔ sign ∈ [' ', '.', '\x7b', '[', ')', ';'] := by
  simp [keywordFollowers, CharClass.contains, CharClass.single, or_assoc,
    ← CharClass.contains_single]

namespace Keyword

/-- One of the keywords comes first in the text, and what is left begins with one of the signs
that may follow a keyword. -/
def Leads (words : List Keyword) (after rest : List Char) : Prop :=
  ∃ word ∈ words, ∃ spelling ∈ word.spellings, after = spelling ++ rest ∧
    rest.head?.any keywordFollowers.contains

/-- Keywords begin as words do. They are made of a kind of characters that the signs behind them
are not of. -/
structure Spelled (words : List Keyword) (kind : Char → Bool) : Prop where
  filled : words ≠ []
  begins : ∀ word ∈ words, ∀ spelling ∈ word.spellings, startsWithWord spelling
  made : ∀ word ∈ words, ∀ spelling ∈ word.spellings, ∀ character ∈ spelling, kind character
  apart : ∀ sign ∈ [' ', '.', '\x7b', '[', ')', ';'], kind sign = false

/-- There is one way in which a text begins with a keyword. -/
theorem Leads.unique (spelled : Spelled words kind) {after rest other : List Char}
    (leads : Leads words after rest) (again : Leads words after other) : rest = other := by
  obtain ⟨word, listed, spelling, spells, ahead, follows⟩ := leads
  obtain ⟨word', listed', spelling', spells', ahead', follows'⟩ := again
  have stops {rest : List Char} (follows : rest.head?.any keywordFollowers.contains) :
      rest.head?.any kind = false := by
    cases rest with
    | nil => rfl
    | cons next others => exact spelled.apart next (keyword_followers_contain.mp follows)
  exact (Regex.stretch_unique kind (ahead.symm.trans ahead')
    (spelled.made word listed spelling spells) (spelled.made word' listed' spelling' spells')
    (stops follows) (stops follows')).2

/-- Where a keyword comes first, a word begins. -/
theorem Leads.starts (spelled : Spelled words kind) {after rest : List Char}
    (leads : Leads words after rest) : startsWithWord after := by
  obtain ⟨word, listed, spelling, spells, rfl, _⟩ := leads
  have begins := spelled.begins word listed spelling spells
  cases spelling with
  | nil => cases begins
  | cons letter others => exact begins

/-- A match of the keywords begins where no word is before it, and spans a keyword. -/
theorem leads_of_match (spelled : Spelled words kind)
    (member : last ∈ (keywordsExpr words).ends first) :
    startsWithWord first.before = false ∧ Leads words first.after last.after := by
  have leads : Leads words first.after last.after := by
    obtain ⟨word, listed, spelling, spells, follower, rest, ahead, follows, contained⟩ :=
      keywords_match spelled.filled member
    exact ⟨word, listed, spelling, spells, ahead, by rw [follows]; exact contained⟩
  obtain ⟨begun, boundary, _⟩ := Expr.mem_sequences_cons.mp member
  obtain ⟨rfl, holds⟩ := Expr.mem_assertion boundary
  exact ⟨by simpa [Regex.Assertion.holds, leads.starts spelled] using holds, leads⟩

/-- Where no word is before a keyword, the keyword is the preferred match. -/
theorem preferred_of_leads (spelled : Spelled words kind)
    (before : startsWithWord first.before = false) (leads : Leads words first.after last.after) :
    ((keywordsExpr words).ends first).head? = some last := by
  have matched : last ∈ (keywordsExpr words).ends first := by
    have starts := leads.starts spelled
    obtain ⟨word, listed, spelling, spells, ahead, follows⟩ := leads
    obtain ⟨group, member⟩ := exists_capture 1 (List.mem_map_of_mem (f := Keyword.parts) listed)
    refine Expr.mem_sequences_cons.mpr ⟨first, ?_, Expr.mem_sequences_cons.mpr ⟨last, ?_, ?_⟩⟩
    · simp [Expr.ends, Regex.Assertion.holds, before, starts]
    · exact Expr.mem_alternatives member (Keyword.mem_of_spelling spells ahead)
    · cases behind : last.after with
      | nil =>
        rw [behind] at follows
        cases follows
      | cons follower others =>
        rw [behind] at follows
        obtain ⟨further, contained, _⟩ := CharClass.mem_ends_of_after behind follows
        have found : ((Expr.one (some keywordFollowers)).ends last).isEmpty = false :=
          List.isEmpty_eq_false_iff_exists_mem.mpr ⟨further, contained⟩
        change last ∈ if ((Expr.one (some keywordFollowers)).ends last).isEmpty = false then [last]
          else []
        rw [if_pos found]
        exact List.mem_singleton_self last
  obtain ⟨actual, preferred⟩ :=
    Option.isSome_iff_exists.mp (List.isSome_head?.mpr (List.ne_nil_of_mem matched))
  have same := (leads_of_match spelled (List.mem_of_mem_head? preferred)).2.unique spelled leads
  rw [preferred, Cursor.eq_of_after same]

/-- The preferred match from a place on is the keyword ahead, if no word is before it. -/
theorem preferred_iff (spelled : Spelled words kind) :
    ((keywordsExpr words).ends first).head? = some last ↔
      startsWithWord first.before = false ∧ Leads words first.after last.after :=
  ⟨fun preferred => leads_of_match spelled (List.mem_of_mem_head? preferred),
    fun ⟨before, leads⟩ => preferred_of_leads spelled before leads⟩

end Keyword

end Highlighter

import Highlighter.Proofs.Grammar.Acceptance
import Highlighter.Proofs.Grammar.Pattern
import Highlighter.Proofs.Regex.Repeats

/-!
# Names and extensions as patterns

What a name and an extension have to be can be written as patterns between `^` and `$`. The check
looks at their characters one by one instead. The two agree: both patterns compile, a search with
one of them always ends, and it finds something in exactly the texts that pass the check.

Such a pattern can match at the start of the text only and has to come to its end, so the question
is over which texts the parts between the signs pass as a whole.
-/

namespace Highlighter

open Text (Cursor)

namespace Regex

variable {text : List Char}

namespace Expr

/-- Some parts between the start and the end of the text. -/
def whole (parts : List Expr) : Expr :=
  .sequences (.assertion .textStart :: parts ++ [.assertion .textEnd])

/-- The parts match from the start of the text to its end. -/
theorem mem_whole {parts : List Expr} {place last : Cursor text} :
    last ∈ (whole parts).ends place ↔
      place = Cursor.start text ∧ last ∈ (sequences parts).ends place ∧ last.after = [] := by
  have stays {condition : Assertion} {place last : Cursor text} :
      last ∈ (assertion condition).ends place ↔ condition.holds place ∧ last = place := by
    simp [ends]
  have starts {place last : Cursor text} : last ∈ (assertion .textStart).ends place ↔
      place = Cursor.start text ∧ last = place := by
    rw [stays, Assertion.holds, List.isEmpty_iff]
    refine and_congr_left fun _ => ⟨fun first => ?_, by rintro rfl; rfl⟩
    exact Cursor.eq_of_index (by rw [place.counts, first]; rfl)
  have stops {place last : Cursor text} : last ∈ (sequences [assertion .textEnd]).ends place ↔
      last = place ∧ last.after = [] := by
    rw [sequences, stays, Assertion.holds, List.isEmpty_iff]
    constructor
    · rintro ⟨ended, rfl⟩
      exact ⟨rfl, ended⟩
    · rintro ⟨rfl, ended⟩
      exact ⟨ended, rfl⟩
  rw [whole, List.cons_append, mem_sequences_cons]
  simp only [mem_sequences_append, starts, stops]
  constructor
  · rintro ⟨_, ⟨first, rfl⟩, _, passed, rfl, ended⟩
    exact ⟨first, passed, ended⟩
  · rintro ⟨first, passed, ended⟩
    exact ⟨place, ⟨first, rfl⟩, last, passed, rfl, ended⟩

/-- Something is found in the texts over which the parts pass as a whole.

Proof: no other place than the start has a match, so the leftmost one is there. -/
theorem whole_found {parts : List Expr} :
    ((whole parts).first? (Cursor.start text)).isSome ↔
      ∃ last : Cursor text, last ∈ (sequences parts).ends (Cursor.start text) ∧ last.after = [] := by
  constructor
  · intro found
    obtain ⟨⟨first, last⟩, same⟩ := Option.isSome_iff_exists.mp found
    obtain ⟨_, preferred, _⟩ := leftmost_some same
    obtain ⟨rfl, passed⟩ := mem_whole.mp (List.mem_of_mem_head? preferred)
    exact ⟨last, passed⟩
  · rintro ⟨last, passed⟩
    have matched : last ∈ (whole parts).ends (Cursor.start text) := mem_whole.mpr ⟨rfl, passed⟩
    by_contra missing
    have nowhere := leftmost_none (Option.not_isSome_iff_eq_none.mp missing) (Nat.le_refl _)
    rw [List.head?_eq_none_iff.mp nowhere] at matched
    cases matched

end Expr

end Regex

open Regex (CharClass Expr)

/-- A pattern that becomes an automaton compiles for every limit, and no search with it is given up.
If it is read as parts between the signs, it finds something in the texts over which they pass. -/
theorem Pattern.ReadAs.found_whole {pattern : Pattern} {parts : List Expr}
    (reads : pattern.ReadAs (.whole parts)) {automaton : Regex.Automaton}
    (matched : Regex.Compile.matcher (.whole parts) = .ok (.automaton automaton)) (limit : Nat)
    (text : List Char) : ∃ regex, pattern.compile limit = .ok regex ∧
      ∃ found, regex.find? (Cursor.start text) = .ok found ∧
        (found.isSome ↔ ∃ last : Cursor text,
          last ∈ (Expr.sequences parts).ends (Cursor.start text) ∧ last.after = []) := by
  have compiled := reads.compile_eq matched limit
  refine ⟨_, compiled, ?_⟩
  rcases Regex.find_first (reads.stands compiled) (Cursor.start text) with
    ⟨found, searched, same⟩ | ⟨_, machine, _⟩
  · refine ⟨found, searched, ?_⟩
    rw [← Expr.whole_found, ← same, Option.isSome_map]
  · cases machine

namespace Description

/-- What a name has to match. -/
def namePattern : Pattern := ⟨"^[a-z][a-z0-9_+-]*$", {}⟩

/-- What an extension has to match. -/
def extensionPattern : Pattern := ⟨"^[A-Za-z0-9_+-]+$", {}⟩

/-- The characters of some ranges. -/
def ranges (bounds : List (Char × Char)) : CharClass :=
  bounds.foldl (fun set range => .union set (.range range.1 range.2)) .nothing

def initials : CharClass := ranges [('a', 'z')]

def signs : CharClass := ranges [('a', 'z'), ('0', '9'), ('_', '_'), ('+', '+'), ('-', '-')]

def letters : CharClass :=
  ranges [('A', 'Z'), ('a', 'z'), ('0', '9'), ('_', '_'), ('+', '+'), ('-', '-')]

theorem contains_ranges {bounds : List (Char × Char)} {character : Char} :
    (ranges bounds).contains character ↔
      ∃ range ∈ bounds, range.1 ≤ character ∧ character ≤ range.2 := by
  have added (set : CharClass) :
      (bounds.foldl (fun set range => CharClass.union set (.range range.1 range.2)) set).contains
          character ↔
        set.contains character ∨ ∃ range ∈ bounds, range.1 ≤ character ∧ character ≤ range.2 := by
    induction bounds generalizing set with
    | nil => simp
    | cons range others induction => simp [induction, CharClass.contains, or_assoc]
  rw [ranges, added]
  simp [CharClass.contains]

theorem between_same {only character : Char} :
    only ≤ character ∧ character ≤ only ↔ character = only := by
  rw [← CharClass.contains_single, CharClass.contains, Bool.and_eq_true, decide_eq_true_eq,
    decide_eq_true_eq]

theorem contains_initials {character : Char} :
    initials.contains character ↔ 'a' ≤ character ∧ character ≤ 'z' := by
  simp [initials, contains_ranges]

theorem contains_signs {character : Char} :
    signs.contains character ↔ IsNameSign character := by
  simp [signs, contains_ranges, between_same, IsNameSign]

theorem contains_letters {character : Char} :
    letters.contains character ↔
      IsNameSign character ∨ ('A' ≤ character ∧ character ≤ 'Z') := by
  rw [or_comm]
  simp [letters, contains_ranges, between_same, IsNameSign]

def nameParts : List Expr :=
  [.one (some initials), .repetition (.one (some signs)) 0 none true]

def extensionParts : List Expr := [.repetition (.one (some letters)) 1 none true]

theorem name_read : namePattern.ReadAs (.whole nameParts) := ⟨by cbv, by decide⟩

theorem extension_read : extensionPattern.ReadAs (.whole extensionParts) := ⟨by cbv, by decide⟩

theorem name_matcher : Regex.Compile.matcher (.whole nameParts) =
    .ok (.automaton (.ofExpr (.whole nameParts))) := by
  cbv

theorem extension_matcher : Regex.Compile.matcher (.whole extensionParts) =
    .ok (.automaton (.ofExpr (.whole extensionParts))) := by
  cbv

/-- The parts of a name pass over the names of languages. -/
theorem name_passed {text : List Char} :
    (∃ last : Cursor text,
        last ∈ (Expr.sequences nameParts).ends (Cursor.start text) ∧ last.after = []) ↔
      ∃ first others, text = first :: others ∧ ('a' ≤ first ∧ first ≤ 'z') ∧
        ∀ character ∈ others, IsNameSign character := by
  have steps {last : Cursor text} :
      last ∈ (Expr.sequences nameParts).ends (Cursor.start text) ↔
        ∃ middle, middle ∈ (Expr.one (some initials)).ends (Cursor.start text) ∧
          last ∈ (Expr.repetition (.one (some signs)) 0 none true).ends middle :=
    Expr.mem_sequences_cons
  constructor
  · rintro ⟨last, passed, ended⟩
    obtain ⟨middle, initial, passed⟩ := steps.mp passed
    obtain ⟨first, ahead, lower⟩ := CharClass.after_of_mem_ends initial
    obtain ⟨others, behind, within⟩ := Expr.stretch_within IsNameSign passed rfl
      fun _ => contains_signs.mp
    rw [ended, List.append_nil] at behind
    exact ⟨first, others, by rw [← behind]; exact ahead, contains_initials.mp lower, within⟩
  · rintro ⟨first, others, rfl, lower, within⟩
    have ahead : (Cursor.start (first :: others)).after = first :: others := rfl
    obtain ⟨middle, initial, behind⟩ :=
      CharClass.mem_ends_of_after ahead (contains_initials.mpr lower)
    obtain ⟨last, passed, ended⟩ := Expr.mem_many signs true
      (fun character listed => contains_signs.mpr (within character listed))
      (by rw [behind, List.append_nil])
    exact ⟨last, steps.mpr ⟨middle, initial, passed⟩, ended⟩

/-- The part of an extension passes over the extensions of files. -/
theorem extension_passed {text : List Char} :
    (∃ last : Cursor text,
        last ∈ (Expr.sequences extensionParts).ends (Cursor.start text) ∧ last.after = []) ↔
      text ≠ [] ∧ ∀ character ∈ text,
        IsNameSign character ∨ ('A' ≤ character ∧ character ≤ 'Z') := by
  constructor
  · rintro ⟨last, passed, ended⟩
    obtain ⟨stretch, filled, within, ahead⟩ := Expr.stretch_of_some passed
    rw [ended, List.append_nil] at ahead
    obtain rfl : text = stretch := ahead
    exact ⟨filled, fun character listed => contains_letters.mp (within character listed)⟩
  · rintro ⟨filled, within⟩
    exact Expr.mem_some filled
      (fun character listed => contains_letters.mpr (within character listed))
      (List.append_nil text).symm

/-- The pattern of names finds something in a text exactly if the text is a valid name. -/
theorem name_pattern_finds (name : String) (limit : Nat) :
    ∃ regex, namePattern.compile limit = .ok regex ∧
      ∃ found, regex.find? (Cursor.start name.toList) = .ok found ∧
        (found.isSome ↔ isValidName name) := by
  obtain ⟨regex, compiled, found, searched, passed⟩ :=
    name_read.found_whole name_matcher limit name.toList
  exact ⟨regex, compiled, found, searched, passed.trans (name_passed.trans is_valid_name_iff.symm)⟩

/-- The pattern of extensions finds something in a text exactly if the text is a valid extension. -/
theorem extension_pattern_finds (extension : String) (limit : Nat) :
    ∃ regex, extensionPattern.compile limit = .ok regex ∧
      ∃ found, regex.find? (Cursor.start extension.toList) = .ok found ∧
        (found.isSome ↔ isValidExtension extension) := by
  obtain ⟨regex, compiled, found, searched, passed⟩ :=
    extension_read.found_whole extension_matcher limit extension.toList
  exact ⟨regex, compiled, found, searched,
    passed.trans (extension_passed.trans is_valid_extension_iff.symm)⟩

end Description

end Highlighter

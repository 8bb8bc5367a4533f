import Highlighter.Proofs.Dart.Scanning
import Highlighter.Proofs.Regex.Trying

/-!
# Where comments end

A comment of a line goes on to the line feed, and a comment of several lines to the first signs that
end it. Both begin with a slash, and the sign behind it decides between them. The signs that end a
comment of several lines may not share the asterisk of those that begin it, so `/*/` alone is none.

Where such a comment has no end, the scanner goes on behind its slash. What follows is searched like
any other text, so the lines behind it keep their comments.
-/

namespace Highlighter.Dart

open Text (Cursor)
open Regex (Expr CharClass runEnd)
open Regex.Follow

/-- Where the comment ends that begins at the position, if one does: before the next line feed, or
behind the first signs that end a comment of several lines, which may not share a sign with those
that begin it. -/
def commentEnd? (text : List Char) (position : Nat) : Option Nat :=
  if text[position]? = some '/' ∧ text[position + 1]? = some '/' then
    some (runEnd text (· ≠ '\n') (position + 2))
  else if text[position]? = some '/' ∧ text[position + 1]? = some '*' then
    ((List.range' (position + 2) (text.length - (position + 2))).find? fun other =>
      text[other]? = some '*' ∧ text[other + 1]? = some '/').map (· + 2)
  else none

variable {text : List Char} {position : Nat}

/-- The set of what is within a line. -/
theorem within_line_contains :
    (CharClass.complement (union [.single '\n'])).contains = (· ≠ '\n') := by
  funext character
  simp [union, CharClass.contains, CharClass.contains_single_eq]

/-- The comments of Dart, by what they make of what follows. -/
theorem comments_try : comments.Tries text (firstOf
    [past text (· = '/') ∘ past text (· = '/') ∘ pastMany text (· ≠ '\n') ∘ id,
      past text (· = '/') ∘ past text (· = '*') ∘ pastFew text (fun _ => true) ∘
        past text (· = '*') ∘ past text (· = '/') ∘ id]) := by
  have line : (atLeast 0 (.one (some (.complement (union [.single '\n']))))).Tries text _ :=
    .many _
  have lines : (Expr.repetition (.one (some .anything)) 0 none false).Tries text
      (pastFew text fun _ => true) := .few .anything
  rw [within_line_contains] at line
  have first := (Expr.Tries.letter '/').sequences_cons
    ((Expr.Tries.letter '/').sequences_cons (line.sequences_cons .sequences_nil))
  have second := (Expr.Tries.letter '/').sequences_cons ((Expr.Tries.letter '*').sequences_cons
    (lines.sequences_cons ((Expr.Tries.letter '*').sequences_cons
      ((Expr.Tries.letter '/').sequences_cons .sequences_nil))))
  exact .group (.alternatives (List.cons_ne_nil _ _)
    (.cons (first.capture 1) (.cons (second.capture 2) .nil)))

/-- The preferred comment that begins at a place is the one that the text tells. -/
theorem comment_end_agrees (place : Cursor text) :
    commentEnd? text place.index = (comments.ends place).head?.map Cursor.index := by
  rw [comments_try.head place]
  generalize place.index = position
  let ends (other : Nat) : Bool := text[other]? = some '*' ∧ text[other + 1]? = some '/'
  have closes (other : Nat) : past text (· = '*') (past text (· = '/') some) other =
      if ends other then some (other + 2) else none := by
    rw [past_letter, past_letter]
    split <;> simp_all [ends]
  rw [first_of_cons, first_of_cons, first_of_nil, Option.or_none, commentEnd?]
  simp only [Function.comp_apply, past_letter, many_some, id]
  by_cases begins : text[position]? = some '/'
  · rw [if_pos begins, if_pos begins]
    by_cases line : text[position + 1]? = some '/'
    · rw [if_pos line, if_pos ⟨begins, line⟩, Option.some_or]
    · rw [if_neg line, if_neg fun both => line both.2, Option.none_or]
      by_cases long : text[position + 1]? = some '*'
      · obtain ⟨inside, _⟩ := List.getElem?_eq_some_iff.mp long
        rw [if_pos long, if_pos ⟨begins, long⟩, few_of_leads (by omega) closes (by simp [ends])]
      · rw [if_neg long, if_neg fun both => long both.2]
  · simp [begins]

example : commentEnd? "/*/ */".toList 0 = some 6 := by decide
example : commentEnd? "/*/".toList 0 = none := by decide

/-- The comments of Dart are those that a scanner finds which looks at the signs alone, whatever the
limit. Every pair of slashes lies in one of them, so signs that begin a comment and have no end hide
nothing. -/
theorem comment_spans (content : String) :
    (∃ pattern, Grammar.dart.comments = some pattern ∧
      ∀ limit, ∃ regex, pattern.compile limit = .ok regex ∧
        (regex.scan content.toList).problem = none ∧
        (regex.scan content.toList).spans = Regex.byteSpans content.toList
          (Regex.leftToRight content.toList.length (commentEnd? content.toList) 0)) ∧
    ∀ former latter, content.toList = former ++ '/' :: '/' :: latter →
      ∃ span ∈ Regex.leftToRight content.toList.length (commentEnd? content.toList) 0,
        span.1 ≤ former.length ∧ former.length < span.2 := by
  have planned : (.comment, Grammar.dart.comments) ∈ Grammar.dart.plan := by simp [Grammar.plan]
  have listed : (.comment, comments) ∈ plan := by simp [plan]
  refine ⟨spans_of_automaton planned listed comments_matcher content comment_end_agrees, ?_⟩
  intro former latter split
  have first : content.toList[former.length]? = some '/' := by simp [split]
  have second : content.toList[former.length + 1]? = some '/' := by
    rw [split, List.getElem?_append_right (by omega)]
    simp
  have ends : commentEnd? content.toList former.length =
      some (runEnd content.toList (· ≠ '\n') (former.length + 2)) := if_pos ⟨first, second⟩
  have inside : former.length < content.toList.length := by simp [split]
  have passed : former.length + 2 ≤ runEnd content.toList (· ≠ '\n') (former.length + 2) :=
    Regex.le_run_end
  exact Regex.left_to_right_covers (Nat.zero_le _) inside ends (by omega)

/-- The line behind signs that begin a comment without an end is a comment. -/
theorem unclosed_hides_no_line :
    "/*//".toList = ['/', '*'] ++ '/' :: '/' :: [] ∧
      ∃ span ∈ Regex.leftToRight 4 (commentEnd? "/*//".toList) 0, span.1 ≤ 2 ∧ 2 < span.2 :=
  ⟨rfl, (comment_spans "/*//").2 ['/', '*'] [] rfl⟩

end Highlighter.Dart

import Highlighter.Proofs.Dart.Spans
import Highlighter.Proofs.Regex.Hits

/-!
# How matches of keywords and calls meet in a text

No word begins inside a keyword or inside a call, so no keyword and no call does. A keyword that
ends inside a call, or where the call ends, is all of its name, and a keyword that begins with a
call ends no later. So keywords and calls that meet begin together.
-/

namespace Highlighter.Dart

open Text (Cursor)
open Regex (Expr Hits)
open Regex.Assertion (startsWithWord)

variable {text : List Char} {first last inner begun reached : Cursor text}

/-- The two parts into which a place cuts what a match spans. -/
theorem exists_parts (inner : Cursor text) {stretch : List Char}
    (ahead : first.after = stretch ++ last.after)
    (begins : first.index ≤ inner.index) (ends : inner.index ≤ last.index) :
    ∃ former latter, stretch = former ++ latter ∧ first.after = former ++ inner.after ∧
      inner.after = latter ++ last.after ∧ former.length = inner.index - first.index := by
  refine ⟨first.slice inner, inner.slice last, ?_, (Cursor.slice_append_after begins).symm,
    (Cursor.slice_append_after ends).symm, Cursor.length_slice begins⟩
  rw [Cursor.slice_append_slice begins ends, Cursor.slice_of_after ahead]

/-- The name of a call, and the blanks behind it. -/
theorem call_parts (preferred : (functions.ends first).head? = some last) :
    ∃ name blanks, first.after = (name ++ blanks) ++ last.after ∧ name ≠ [] ∧
      (∀ character ∈ name, Unicode.isWord character) ∧ (∀ character ∈ blanks, character = ' ') ∧
      ∃ rest, last.after = '(' :: rest := by
  obtain ⟨_, span⟩ := call_of_match (List.mem_of_mem_head? preferred)
  generalize first.after = after at span
  generalize last.after = behind at span
  cases span with
  | @call initial name blanks rest begins word blank =>
    refine ⟨initial :: name, blanks, by simp, List.cons_ne_nil _ _, ?_, blank, rest, rfl⟩
    intro character listed
    rcases List.mem_cons.mp listed with rfl | inside
    · exact isWord_of_name_begin begins
    · exact word character inside

/-- No word begins inside a call, nor where it ends. -/
theorem call_unentered (preferred : (functions.ends first).head? = some last)
    (begins : first.index < inner.index) (ends : inner.index ≤ last.index)
    (starts : startsWithWord inner.after) : startsWithWord inner.before := by
  obtain ⟨name, blanks, ahead, _, word, blank, rest, parenthesis⟩ := call_parts preferred
  obtain ⟨former, latter, split, passed, onward, length⟩ :=
    exists_parts inner ahead (Nat.le_of_lt begins) ends
  rcases List.append_eq_append_iff.mp split with ⟨more, rfl, rfl⟩ | ⟨more, rfl, rfl⟩
  · -- The place is among the blanks.
    rw [onward, parenthesis, blanks_apart fun character listed =>
      blank character (List.mem_append_right _ listed)] at starts
    cases starts
  · rw [Cursor.before_of_after passed]
    refine ends_of_words ?_ (fun character listed => word character (List.mem_append_left _ listed)) _
    rintro rfl
    rw [List.length_nil] at length
    omega

/-- No call begins inside a call. -/
theorem call_apart (preferred : (functions.ends first).head? = some last)
    (called : (functions.ends inner).head? = some reached) (begins : first.index < inner.index) :
    last.index ≤ inner.index := by
  by_contra ends
  obtain ⟨before, _⟩ := call_of_match (List.mem_of_mem_head? called)
  obtain ⟨name, blanks, ahead, filled, word, _⟩ := call_parts called
  have starts : startsWithWord inner.after := by
    rw [ahead, List.append_assoc]
    exact starts_of_words filled word _
  rw [call_unentered preferred begins (Nat.le_of_not_le ends) starts] at before
  cases before

/-- Every call is found. -/
theorem call_found {hits : List (Cursor text × Cursor text)} {found : List Regex.Found}
    {rest : List Char} (scanned : Hits functions (Cursor.start text) hits found rest)
    (preferred : (functions.ends first).head? = some last) : (first, last) ∈ hits := by
  refine scanned.complete (fun hit listed inner begins ends => ?_) preferred (Nat.zero_le _)
  obtain ⟨chosen, _, _⟩ := scanned.preferred (by decide) hit listed
  by_contra found
  obtain ⟨final, called⟩ := Option.ne_none_iff_exists'.mp found
  exact absurd (call_apart chosen called begins) (Nat.not_le_of_gt ends)

/-- No keyword begins inside a keyword, so every keyword is found. -/
theorem keyword_found {hits : List (Cursor text × Cursor text)} {found : List Regex.Found}
    {rest : List Char} (scanned : Hits (keywordsExpr words) (Cursor.start text) hits found rest)
    (preferred : ((keywordsExpr words).ends first).head? = some last) : (first, last) ∈ hits := by
  refine scanned.complete (fun hit listed inner begins ends => ?_) preferred (Nat.zero_le _)
  obtain ⟨chosen, _, _⟩ := scanned.preferred keywords_plain.1 hit listed
  by_contra found
  obtain ⟨final, again⟩ := Option.ne_none_iff_exists'.mp found
  obtain ⟨before, _⟩ := keyword_of_match (List.mem_of_mem_head? again)
  obtain ⟨_, word, among, spelling, spells, ahead, _⟩ :=
    keyword_of_match (List.mem_of_mem_head? chosen)
  obtain ⟨former, latter, rfl, passed, onward, length⟩ :=
    exists_parts inner ahead (Nat.le_of_lt begins) (Nat.le_of_lt ends)
  have short : latter ≠ [] := by
    rintro rfl
    have same : inner = hit.2 := Cursor.eq_of_after onward
    rw [same] at ends
    omega
  have letters : ∀ character ∈ former, Unicode.isWord character := by
    intro character inside
    refine Unicode.isWord_of_isAlpha (spelling_letters word among _ spells character ?_)
    rw [List.dropLast_append_of_ne_nil short]
    exact List.mem_append_left _ inside
  have goesOn : startsWithWord inner.before := by
    rw [Cursor.before_of_after passed]
    refine ends_of_words ?_ letters _
    rintro rfl
    rw [List.length_nil] at length
    omega
  rw [goesOn] at before
  cases before

/-- A keyword that begins with a call ends inside of it, or where it ends. -/
theorem keyword_within_call (keyword : ((keywordsExpr words).ends first).head? = some reached)
    (call : (functions.ends first).head? = some last) :
    first.index < reached.index ∧ reached.index ≤ last.index := by
  obtain ⟨_, word, listed, spelling, spells, ahead, _⟩ :=
    keyword_of_match (List.mem_of_mem_head? keyword)
  obtain ⟨_, _, whole, _, _, _, rest, parenthesis⟩ := call_parts call
  obtain ⟨signs, begins⟩ := spelling_signs word listed spelling spells
  have filled : spelling ≠ [] := by
    rintro rfl
    cases begins
  have length := Cursor.index_of_after ahead
  have positive := List.length_pos_iff.mpr filled
  refine ⟨by omega, ?_⟩
  by_contra late
  obtain ⟨former, latter, rfl, _, onward, _⟩ :=
    exists_parts last ahead (by have := Cursor.index_of_after whole; omega) (by omega)
  -- The parenthesis behind the call would be a sign of the keyword.
  cases latter with
  | nil =>
    have same : last = reached := Cursor.eq_of_after onward
    rw [same] at late
    omega
  | cons sign others =>
    rw [parenthesis] at onward
    obtain ⟨rfl, _⟩ := List.cons.inj onward
    exact absurd (signs '(' (List.mem_append_right _ List.mem_cons_self)) (by decide)

/-- A keyword that ends inside a call, or where it ends, begins with it.

Proof: the keyword ends with a letter or an asterisk, and no word goes on behind it, so it ends with
the name. Then both are all of the word before that place. -/
theorem keyword_begins_call (keyword : ((keywordsExpr words).ends begun).head? = some reached)
    (call : (functions.ends first).head? = some last) (begins : first.index < reached.index)
    (ends : reached.index ≤ last.index) : begun = first := by
  obtain ⟨before, word, listed, spelling, spells, ahead, follows⟩ :=
    keyword_of_match (List.mem_of_mem_head? keyword)
  obtain ⟨signs, initial⟩ := spelling_signs word listed spelling spells
  have filled : spelling ≠ [] := by
    rintro rfl
    cases initial
  have lastSign := Cursor.last_of_stretch filled ahead
  rw [List.getLast?_eq_some_getLast filled] at lastSign
  obtain ⟨apart, _⟩ := call_of_match (List.mem_of_mem_head? call)
  obtain ⟨name, blanks, whole, named, inWord, blank, _⟩ := call_parts call
  obtain ⟨former, latter, split, passed, onward, length⟩ :=
    exists_parts reached whole (Nat.le_of_lt begins) ends
  have same : former = name := by
    rcases List.append_eq_append_iff.mp split with ⟨more, rfl, rfl⟩ | ⟨more, rfl, rfl⟩
    · rcases List.eq_nil_or_concat more with rfl | ⟨some, sign, rfl⟩
      · rw [List.append_nil]
      · -- The keyword would end with a blank.
        have final := Cursor.last_of_stretch (by simp) passed
        rw [lastSign, List.concat_eq_append, ← List.append_assoc, List.getLast?_concat] at final
        have blanked := blank sign (by simp)
        have sign := signs _ (List.getLast_mem filled)
        rw [Option.some.inj final, blanked] at sign
        exact absurd sign (by decide)
    · cases more with
      | nil => rw [List.append_nil]
      | cons next others =>
        -- The word would go on behind the keyword.
        rw [onward] at follows
        have stops := (follower_apart (show keywordFollowers.contains next from follows)).2.1
        rw [inWord next (by simp)] at stops
        cases stops
  subst same
  have lastWord : Unicode.isWord (spelling.getLast filled) := by
    have final := Cursor.last_of_stretch named passed
    rw [lastSign, List.getLast?_eq_some_getLast named] at final
    rw [Option.some.inj final]
    exact inWord _ (List.getLast_mem named)
  have spelled : ∀ character ∈ spelling, Unicode.isWord character := by
    intro character inside
    rw [← List.dropLast_append_getLast filled] at inside
    rcases List.mem_append.mp inside with early | final
    · exact Unicode.isWord_of_isAlpha (spelling_letters word listed spelling spells character early)
    · exact List.mem_singleton.mp final ▸ lastWord
  have back : spelling.reverse ++ begun.before = former.reverse ++ first.before := by
    rw [← Cursor.before_of_after ahead, ← Cursor.before_of_after passed]
  obtain ⟨reversed, _⟩ := Regex.stretch_unique Unicode.isWord back
    (fun character inside => spelled character (List.mem_reverse.mp inside))
    (fun character inside => inWord character (List.mem_reverse.mp inside)) before apart
  have lengths := congrArg List.length reversed
  rw [List.length_reverse, List.length_reverse] at lengths
  have first := Cursor.index_of_after ahead
  have second := Cursor.index_of_after passed
  exact Cursor.eq_of_index (by omega)

end Highlighter.Dart

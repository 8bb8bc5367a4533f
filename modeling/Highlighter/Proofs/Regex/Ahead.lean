import Highlighter.Proofs.Regex.Compile
import Highlighter.Proofs.Regex.Escapes
import Highlighter.Proofs.Regex.Matched
import Highlighter.Proofs.Regex.Scan
import Highlighter.Proofs.Text.Bytes

/-!
# What is ahead of a match

A sequence that ends by looking ahead matches only where the text goes on as it looks for. The
law is carried from the expression to its code (`Code.EndsBefore`), from the code to a search, and
from each search to the matches that a scan reports (`scan_goes_on`). A part that looks ahead is
one that is gone back for, so the code of the sequence tries it and does not settle it beforehand.

What the parts in front of it are does not matter: no condition is put on them.
-/

namespace Highlighter.Regex

open Text (Cursor byteLength)

variable {ahead : List Char → Prop} {referred : List Nat} {text : List Char}
  {regex : Regex}

namespace Code

/-- Every way of the code ends where the text goes on so. -/
def EndsBefore (ahead : List Char → Prop) (code : Code) : Prop :=
  ∀ (text : List Char) (spot reached : Spot text),
    reached ∈ code.ends spot → ahead reached.here.after

/-- A sequence ends where its last part does. -/
theorem EndsBefore.sequences {former : List Code} {last : Code} (ends : last.EndsBefore ahead) :
    (Code.sequences (former ++ [last])).EndsBefore ahead := by
  intro text spot reached member
  rw [ends_sequences, through_append] at member
  obtain ⟨middle, _, inLast⟩ := List.mem_flatMap.mp member
  exact ends text middle reached (by simpa [through] using inLast)

/-- What looks ahead at a character ends in front of it. -/
theorem ends_before_look (character : Char) :
    (look 0 false (.one (.single character))).EndsBefore fun after =>
      ∃ rest, after = character :: rest := by
  intro text spot reached member
  have back : spot.here.back? 0 = some spot.here := rfl
  rw [ends, back] at member
  obtain ⟨beyond, inBody, rfl⟩ := List.mem_map.mp member
  obtain ⟨last, inSet, rfl⟩ := List.mem_map.mp inBody
  obtain ⟨found, after, contained⟩ := CharClass.after_of_mem_ends inSet
  rw [CharClass.contains_single.mp contained] at after
  exact ⟨last.after, after⟩

end Code

namespace Expr

/-- The expression ends by looking ahead at the character. -/
def EndsAhead (character : Char) : Expr → Prop
  | look direction negated body =>
    direction = .ahead ∧ negated = false ∧ body = .literal character false
  | sequence _ second => second.EndsAhead character
  | group body => body.EndsAhead character
  | _ => False

variable {character : Char}

theorem EndsAhead.needs_choices {expression : Expr} (ends : expression.EndsAhead character) :
    expression.needsChoices referred := by
  induction expression with
  | look => rfl
  | sequence first second _ induction => simp [needsChoices, induction ends]
  | group body induction => exact induction ends
  | _ => exact ends.elim

/-- The last part of what ends by looking ahead does so too. -/
theorem EndsAhead.last_part {expression : Expr} (ends : expression.EndsAhead character) :
    ∃ former last, expression.parts = former ++ [last] ∧ last.EndsAhead character := by
  induction expression with
  | sequence first second _ induction =>
    obtain ⟨former, last, parted, same⟩ := induction ends
    exact ⟨first.parts ++ former, last, by rw [parts, parted, List.append_assoc], same⟩
  | _ => exact ⟨[], _, rfl, ends⟩

/-- A sequence ends by looking ahead if its last expression does. -/
theorem ends_ahead_sequences {last : Expr} (ends : last.EndsAhead character)
    (former : List Expr) : (sequences (former ++ [last])).EndsAhead character := by
  induction former with
  | nil => exact ends
  | cons first others induction =>
    rw [List.cons_append, sequences.eq_3 _ _ (by simp)]
    exact induction

/-- Parentheses around an expression do not matter. -/
theorem EndsAhead.grouped {expression : Expr} (ends : expression.EndsAhead character) :
    expression.grouped.EndsAhead character := by
  cases expression with
  | look | sequence | group => exact ends
  | _ => exact ends.elim

end Expr

namespace Compile

/-- The code of what looks ahead at a character. -/
theorem ends_before_of_look {character : Char} {made : Code}
    (compiled : code referred true (.look .ahead false (.literal character false)) = .ok made) :
    made.EndsBefore fun after => ∃ rest, after = character :: rest := by
  rw [code.eq_def, if_neg (by simp)] at compiled
  obtain ⟨body, settles, compiled⟩ := Attempt.bind_eq_ok_iff.mp compiled
  cases compiled
  rw [code.eq_def, if_pos (by rfl)] at settles
  obtain ⟨codes, alone, rfl⟩ := Attempt.map_eq_ok_iff.mp settles
  rw [settled, if_pos (by simp [Expr.literal, CharClass.foldedIf, CharClass.single,
    Expr.spelledOut])] at alone
  cases alone
  exact Code.ends_before_look character

/-- A sequence that ends with a part that is gone back for is tried up to it. -/
theorem divide_choices {former : List Expr} {last : Expr} (choices : last.needsChoices referred) :
    ∃ middle, (divide referred true (former ++ [last])).2.1 = middle ++ [last] ∧
      (divide referred true (former ++ [last])).2.2 = [] := by
  simp only [divide]
  rw [take_while_in_front (by simp [Expr.plain, choices])]
  generalize taken : former.takeWhile _ = leading
  have short : leading.length ≤ former.length := taken ▸ (List.takeWhile_prefix _).length_le
  rw [List.drop_append_of_le_length short, List.reverse_append, List.reverse_singleton,
    List.singleton_append, List.takeWhile_cons_of_neg (by simp [Expr.plain, choices])]
  exact ⟨former.drop leading.length, by simp, rfl⟩

/-- The last of the parts that are tried gives the last code. -/
theorem code_of_last {tries former : List Expr} {last : Expr} {tried : List Code}
    (split : tries = former ++ [last])
    (attempted : (tries.attach.mapM fun part => code referred true part.1) = .ok tried) :
    ∃ others made, tried = others ++ [made] ∧ code referred true last = .ok made := by
  have results := Attempt.results_of_map attempted
  rw [← List.forall₂_map_left_iff (f := Subtype.val)
    (R := fun part made => code referred true part = .ok made), List.attach_map_subtype_val,
    split, ← List.forall₂_reverse_iff, List.reverse_append, List.reverse_singleton,
    List.singleton_append, List.forall₂_cons_left_iff] at results
  obtain ⟨made, others, compiled, _, reversed⟩ := results
  refine ⟨others.reverse, made, ?_, compiled⟩
  rw [← List.reverse_reverse tried, reversed, List.reverse_cons]

/-- What ends by looking ahead at a character has code that ends in front of it.

Proof: induction over the size of the expression, since a sequence is taken apart at once. The
last of its parts is one that is tried, and gives the last code. -/
theorem ends_before_of_ends_ahead {character : Char} {expression : Expr} {made : Code}
    (ends : expression.EndsAhead character)
    (compiled : code referred true expression = .ok made) :
    made.EndsBefore fun after => ∃ rest, after = character :: rest := by
  generalize sized : sizeOf expression = size
  induction size using Nat.strongRecOn generalizing expression made with
  | ind size induction =>
  subst sized
  cases expression with
  | look direction negated body =>
    obtain ⟨rfl, rfl, rfl⟩ := ends
    exact ends_before_of_look compiled
  | group body =>
    rw [code.eq_def, if_neg (by simp)] at compiled
    have inside : body.EndsAhead character := ends
    exact induction (sizeOf body) (by simp) inside compiled rfl
  | sequence first second =>
    obtain ⟨former, last, parted, lastEnds⟩ := ends.last_part
    rw [Expr.parts] at parted
    have among : last ∈ first.parts ++ second.parts := by simp [parted]
    have smaller : sizeOf last < sizeOf (Expr.sequence first second) := by
      rw [Expr.sequence.sizeOf_spec]
      rcases List.mem_append.mp among with inFirst | inSecond
      · have := Expr.sizeOf_of_mem_parts inFirst
        omega
      · have := Expr.sizeOf_of_mem_parts inSecond
        omega
    obtain ⟨middle, tries, ended⟩ := @divide_choices referred former last lastEnds.needs_choices
    rw [← parted] at tries ended
    rw [code.eq_def, if_neg (by simp)] at compiled
    obtain ⟨leading, _, compiled⟩ := Attempt.bind_eq_ok_iff.mp compiled
    obtain ⟨tried, attempted, compiled⟩ := Attempt.bind_eq_ok_iff.mp compiled
    obtain ⟨trailing, settles, compiled⟩ := Attempt.bind_eq_ok_iff.mp compiled
    obtain ⟨others, lastMade, rfl, lastCompiled⟩ := code_of_last tries attempted
    rw [ended] at settles
    cases settles
    cases compiled
    rw [List.map_nil, List.append_nil, ← List.append_assoc]
    exact Code.EndsBefore.sequences (induction _ smaller lastEnds lastCompiled rfl)
  | _ => exact ends.elim

/-- The matcher of what ends by looking ahead is a program that ends so. -/
theorem matcher_ends_before {character : Char} {expression : Expr} {made : Matcher}
    (ends : expression.EndsAhead character) (compiled : matcher expression = .ok made) :
    ∃ code, made = .machine code ∧
      code.EndsBefore fun after => ∃ rest, after = character :: rest := by
  cases counted : expression.checkedGroups 0 with
  | none =>
    rw [matcher, counted] at compiled
    cases compiled
  | some count =>
  simp only [matcher, counted, ends.needs_choices, Option.isNone_some, Bool.false_eq_true,
    if_false, if_true] at compiled
  obtain ⟨code, coded, compiled⟩ := Attempt.bind_eq_ok_iff.mp compiled
  cases compiled
  exact ⟨code, rfl, ends_before_of_ends_ahead ends coded⟩

end Compile

/-- A match ends at the place that it was made of. -/
theorem Match.last_of_ends {place first last : Cursor text} {hit : Match place}
    (made : Match.ofEnds? place first last = some hit) : hit.last = last := by
  unfold Match.ofEnds? at made
  split at made
  · split at made
    · cases made
      rfl
    · cases made
  · cases made

/-- What a search finds ends where the ways of the code end. -/
theorem find_ends_before {made : Code} (matcher : regex.matcher = .machine made)
    (ends : made.EndsBefore ahead) {place : Cursor text} {hit : Match place}
    (searched : regex.find? place = .ok (some hit)) : ahead hit.last.after := by
  rw [find?, matcher] at searched
  simp only at searched
  rcases Machine.search_leftmost regex.limit made place with
    ⟨overflown, _⟩ | ⟨exhausted, _⟩ | concluded
  · rw [overflown] at searched
    cases searched
  · rw [exhausted] at searched
    cases searched
  · rw [concluded] at searched
    cases found : leftmost (Machine.preferred made) place with
    | none =>
      rw [found] at searched
      cases searched
    | some pair =>
      obtain ⟨first, spot⟩ := pair
      rw [found] at searched
      simp only [Machine.concluded, Except.ok.injEq, Option.bind_eq_some_iff] at searched
      obtain ⟨begun, _, made⟩ := searched
      obtain ⟨_, preferred, _⟩ := leftmost_some found
      rw [Match.last_of_ends made]
      exact ends text _ spot (List.mem_of_mem_head? preferred)

section Scans

variable (each : ∀ {place : Cursor text} {hit : Match place},
  regex.find? place = .ok (some hit) → ahead hit.last.after)

include each

/-- Behind each entry of a scan the text goes on as behind what a search finds.

Proof: induction over the turns of the scan. The entry that a turn adds is followed by what the
turns behind it account for, which is the text behind the match. -/
theorem Finds.goes_on {previous : Option Nat} {settled place : Cursor text} {found : List Found}
    {rest : List Char} {problem : Option Problem}
    (finds : Finds regex previous settled place found rest problem)
    (ordered : settled.index ≤ place.index) {former latter : List Found} {entry : Found}
    (split : found = former ++ entry :: latter) :
    ahead (latter.flatMap Found.text ++ rest) := by
  induction finds generalizing former with
  | givenUp searched | finished searched => simp at split
  | @emptyAtEnd previous settled place hit searched empty atEnd =>
    unfold Match.whenEmpty at split ⊢
    split at split
    · simp at split
    · rename_i new
      obtain ⟨rfl, same⟩ := List.append_eq_singleton_iff.mp split.symm |>.resolve_right (by simp)
      cases same
      simpa [new] using each searched
  | @emptyWithin previous settled place further _ _ _ _ hit searched empty stepped others
      induction =>
    have passed : further.index = hit.last.index + 1 := Cursor.index_of_next? stepped
    have onward := when_empty_text hit previous ordered
    unfold Match.whenEmpty at split onward others induction
    split at split
    · rename_i again
      simp only [if_pos again] at onward induction
      exact induction (by omega) split
    · rename_i new
      simp only [if_neg new, List.singleton_append] at onward induction others split
      cases former with
      | nil =>
        obtain ⟨_, rfl⟩ := List.cons.inj split
        rw [others.text_after (by omega)]
        exact each searched
      | cons first former => exact induction (by omega) (List.cons.inj split).2
  | nonempty hit searched filled others induction =>
    cases former with
    | nil =>
      obtain ⟨_, rfl⟩ := List.cons.inj split
      rw [others.text_after (Nat.le_refl _)]
      exact each searched
    | cons first former => exact induction (Nat.le_refl _) (List.cons.inj split).2

end Scans

/-- The spans of matches, the last first, with the end of the last one in front of them. -/
def gathered (found : List Found) : Nat × List (Nat × Nat) :=
  found.foldl (fun (offset, spans) found =>
    let first := offset + byteLength found.gap
    let last := first + byteLength found.matched
    (last, (first, last) :: spans)) (0, [])

theorem gathered_append (former : List Found) (entry : Found) :
    gathered (former ++ [entry]) =
      let first := (gathered former).1 + byteLength entry.gap
      (first + byteLength entry.matched,
        (first, first + byteLength entry.matched) :: (gathered former).2) := by
  rw [gathered, List.foldl_append]
  rfl

/-- The last of the spans ends where the text of the matches does. -/
theorem gathered_end (found : List Found) :
    (gathered found).1 = byteLength (found.flatMap Found.text) := by
  induction found using List.reverseRecOn with
  | nil => rfl
  | append_singleton others entry induction =>
    rw [gathered_append, List.flatMap_append, Text.byte_length_append, ← induction]
    simp [Found.text, Text.byte_length_append, Nat.add_assoc]

/-- Each span of a scan ends where the text up to one of its entries does. -/
theorem Scan.mem_spans {scan : Scan} {span : Nat × Nat} (member : span ∈ scan.spans) :
    ∃ former entry latter, scan.found = former ++ entry :: latter ∧
      span.2 = byteLength ((former ++ [entry]).flatMap Found.text) := by
  have member : span ∈ (gathered scan.found).2 := List.mem_reverse.mp member
  generalize scan.found = found at member ⊢
  induction found using List.reverseRecOn with
  | nil => cases member
  | append_singleton others entry induction =>
    rw [gathered_append] at member
    rcases List.mem_cons.mp member with rfl | earlier
    · exact ⟨others, entry, [], rfl, by rw [← gathered_end, gathered_append]⟩
    · obtain ⟨former, found, latter, rfl, same⟩ := induction earlier
      exact ⟨former, found, latter ++ [entry], by simp, same⟩

/-- Behind each span of a scan the text goes on as behind what a search finds. -/
theorem scan_goes_on
    (each : ∀ {place : Cursor text} {hit : Match place},
      regex.find? place = .ok (some hit) → ahead hit.last.after)
    {span : Nat × Nat} (member : span ∈ (regex.scan text).spans) :
    ∃ former latter, text = former ++ latter ∧ span.2 = byteLength former ∧ ahead latter := by
  obtain ⟨former, entry, latter, split, ended⟩ := Scan.mem_spans member
  refine ⟨_, _, ?_, ended, (scan_finds regex text).goes_on each (Nat.le_refl _) split⟩
  have whole := scan_text regex text
  rw [Scan.text, split] at whole
  simpa using whole.symm

/-- A pattern that ends by looking ahead at a character matches only in front of it. -/
theorem followed_of_ends_ahead {source : String} {limit : Nat} {expression : Expr}
    {character : Char} (parsed : Parser.parse source.toList = .ok expression)
    (ends : expression.EndsAhead character) (compiled : compile source limit = .ok regex)
    {span : Nat × Nat} (member : span ∈ (regex.scan text).spans) :
    ∃ former latter, text = former ++ character :: latter ∧ span.2 = byteLength former := by
  rw [compile, parsed] at compiled
  cases matched : Compile.matcher expression with
  | error obstacle => simp [matched, bind, Except.bind] at compiled
  | ok matcher =>
    simp only [matched, bind, Except.bind] at compiled
    cases compiled
    obtain ⟨code, rfl, before⟩ := Compile.matcher_ends_before ends matched
    obtain ⟨former, _, split, ended, latter, rfl⟩ :=
      @scan_goes_on (fun after => ∃ rest, after = character :: rest) _ _
        (find_ends_before rfl before) _ member
    exact ⟨former, latter, split, ended⟩

end Highlighter.Regex

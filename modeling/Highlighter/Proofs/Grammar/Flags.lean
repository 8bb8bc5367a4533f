import Highlighter.Proofs.Grammar.Calls
import Highlighter.Proofs.Regex.Around
import Highlighter.Proofs.Text.Bytes

/-!
# Sources with and without flags

Flags open a group, and the source of the pattern is pasted into it as it is. So the flags should
decide what the source matches, and not whether it compiles. That holds with exceptions, and
`flags_keep_validity` lists them. Some are limits of the engine: the group is one more that is open,
and the automaton differs. The others come from the pasting. A parenthesis that the source closes
without having opened it closes the group of the flags instead, and a comment that the source ends
with takes the parenthesis behind it. In a group the source is one sequence, so the engine notices
references by number beside named groups that it does not notice between alternatives.

Where no parenthesis of the source closes the group, the group holds the source as a whole.

Proof: the source in the group is read in the modes of the flags, inside of the group. The reader
takes the same turns outside of it (`Reading.inside`, `Reading.around`) and in other modes
(`read_agree`), with the bound that the shorter text has (`Reading.bounded_of_checked`). What is read
has one outline, and so a matcher, or none, for the same reasons (`matcher_of_outline`).
-/

namespace Highlighter.Pattern

open Text (byteLength)
open Regex (Expr Problem)
open Regex.Parser

variable {pattern : Pattern} {limit : Nat} {expression : Expr} {final : State}

/-- The source without the flags. -/
def bare (pattern : Pattern) : Pattern := ⟨pattern.source, {}⟩

/-- What the reader makes of the source in the modes of the flags, without the group they open. -/
def readSource (pattern : Pattern) : Except Problem State :=
  read (byteLength pattern.wrapped.toList / 2) { modes := pattern.flags.modes } 0
    pattern.source.toList

/-- The state of the reader behind the flags, inside of the group that they open. -/
def behindFlags (pattern : Pattern) : State :=
  State.within { modes := pattern.flags.modes } [(.plain {}, {})]

/-- Why a source may be refused that compiles with flags. -/
inductive RefusedBare : Problem → Prop where
  /-- Without the flags the automaton is too large. -/
  | tooLarge : RefusedBare (.unsupported .tooLarge)
  /-- The source closes a group that it has not opened. -/
  | unopened (position : Nat) : RefusedBare (.malformed position .unopenedGroup)

/-- Why a source may be refused with flags that compiles without. -/
inductive RefusedFlagged (pattern : Pattern) : Problem → Prop where
  /-- With the flags the automaton is too large. -/
  | tooLarge : RefusedFlagged pattern (.unsupported .tooLarge)
  /-- With the group of the flags too many groups are open. -/
  | tooDeep (position : Nat) : RefusedFlagged pattern (.malformed position .tooDeep)
  /-- The source ends where comments are skipped, and its last line may hold one. -/
  | unclosed {final : State} (position : Nat) (alone : pattern.bare.readSource = .ok final)
      (skips : final.modes.skipBlanks) (commented : Commented pattern.source.toList) :
      RefusedFlagged pattern (.malformed position .unclosedGroup)
  /-- The source has named groups and refers to groups by number. -/
  | mixed {final : State} (alone : pattern.bare.readSource = .ok final) (numbered : final.numbered)
      (named : final.names ≠ []) : RefusedFlagged pattern (.unsupported .numberedReference)

/-- A pattern compiles if its text is read as an expression that has a matcher. -/
theorem compile_eq_ok_iff {regex : Regex} :
    pattern.compile limit = .ok regex ↔
      ∃ expression made, Regex.Parser.parse pattern.wrapped.toList = .ok expression ∧
        Regex.Compile.matcher expression = .ok made ∧ ⟨made, limit⟩ = regex := by
  rw [compile, Regex.compile]
  cases Regex.Parser.parse pattern.wrapped.toList with
  | error problem => simp [bind, Except.bind]
  | ok expression =>
    simp only [bind, Except.bind]
    cases made : Regex.Compile.matcher expression <;>
      simp [made, pure, Except.pure, throw, throwThe, MonadExceptOf.throw]

/-- It is refused if its text cannot be read, or if what is read has no matcher. -/
theorem compile_eq_error_iff {problem : Problem} :
    pattern.compile limit = .error problem ↔
      Regex.Parser.parse pattern.wrapped.toList = .error problem ∨
        ∃ expression obstacle, Regex.Parser.parse pattern.wrapped.toList = .ok expression ∧
          Regex.Compile.matcher expression = .error obstacle ∧ .unsupported obstacle = problem := by
  rw [compile, Regex.compile]
  cases Regex.Parser.parse pattern.wrapped.toList with
  | error problem => simp [bind, Except.bind]
  | ok expression =>
    simp only [bind, Except.bind]
    cases made : Regex.Compile.matcher expression <;>
      simp [made, pure, Except.pure, throw, throwThe, MonadExceptOf.throw]

theorem exists_of_made (made : (pattern.compile limit).toOption.isSome) :
    ∃ regex, pattern.compile limit = .ok regex := by
  cases compiled : pattern.compile limit with
  | error problem => simp [compiled, Except.toOption] at made
  | ok regex => exact ⟨regex, rfl⟩

theorem parse_bare (pattern : Pattern) :
    Regex.Parser.parse pattern.bare.wrapped.toList =
      pattern.bare.readSource.map fun state => state.level.expression := rfl

/-- The text is no shorter than the source. -/
theorem bound_le (pattern : Pattern) : byteLength pattern.bare.wrapped.toList / 2 ≤
    byteLength pattern.wrapped.toList / 2 := by
  have source : pattern.bare.wrapped.toList = pattern.source.toList := rfl
  refine Nat.div_le_div_right ?_
  rw [source, to_list_wrapped]
  split
  · exact Nat.le_refl _
  · simp only [Text.byte_length_append, Text.byte_length_cons]
    omega

/-- The modes of flags do not decide how a text is read. -/
theorem outline_flags (pattern : Pattern) :
    State.outline { modes := pattern.flags.modes } = State.outline {} := rfl

/-- What the reader makes of the text it makes of the source, in the group of the flags. -/
theorem parse_wrapped (flagged : pattern.flags.letters ≠ "") :
    ∃ place, Regex.Parser.parse pattern.wrapped.toList =
      (read (byteLength pattern.wrapped.toList / 2) pattern.behindFlags place
        (pattern.source.toList ++ [')'])).map fun state => state.level.expression := by
  obtain ⟨place, opened⟩ := @comes_flags _ flagged (byteLength pattern.wrapped.toList / 2)
    (pattern.source.toList ++ [')']) 0
  have text := to_list_wrapped pattern
  rw [if_neg flagged] at text
  refine ⟨place, ?_⟩
  rw [Regex.Parser.parse]
  conv_lhs => rw [text]
  exact congrArg _ (text ▸ opened)

/-- A text that is read is read in the group of the flags, and the group holds the source as a
whole, unless the source closes it. -/
theorem parse_covers (flagged : pattern.flags.letters ≠ "")
    (parsed : Regex.Parser.parse pattern.wrapped.toList = .ok expression) :
    (∃ final, pattern.readSource = .ok final ∧ expression = final.level.expression.grouped) ∨
      ∃ position, pattern.readSource = .error (.malformed position .unopenedGroup) := by
  obtain ⟨place, text⟩ := parse_wrapped flagged
  obtain ⟨whole, done, rfl⟩ := Attempt.map_eq_ok_iff.mp (text.symm.trans parsed)
  rcases (reading_of_read done).inside rfl rfl 0 with ⟨final, alone, same⟩ | unopened
  · exact .inl ⟨final, alone.read_eq, same⟩
  · exact .inr unopened

/-- If the references of what is read are sound, the source alone is read alike.

Proof: the source alone has the smaller bound for references, but sound references are small. -/
theorem read_bare_of_parse (flagged : pattern.flags.letters ≠ "")
    (parsed : Regex.Parser.parse pattern.wrapped.toList = .ok expression)
    (checked : (expression.checkedGroups 0).isSome) :
    (∃ final, pattern.bare.readSource = .ok final ∧
        expression.outline = final.level.expression.grouped.outline) ∨
      ∃ position, pattern.bare.readSource = .error (.malformed position .unopenedGroup) := by
  obtain ⟨place, text⟩ := parse_wrapped flagged
  obtain ⟨whole, done, rfl⟩ := Attempt.map_eq_ok_iff.mp (text.symm.trans parsed)
  have bytes : pattern.source.toList.length ≤ byteLength pattern.bare.wrapped.toList :=
    Text.length_le_byte_length _
  have short : pattern.behindFlags.marks + (pattern.source.toList ++ [')']).length ≤
      2 * (byteLength pattern.bare.wrapped.toList / 2) + 1 +
        pattern.behindFlags.enclosing.length := by
    simp only [behindFlags, State.marks, State.within, Regex.Parser.Level.marks, Enclosure.marks,
      List.map_nil, List.sum_nil, List.nil_append, List.map_cons, List.sum_cons, Option.map_none,
      Option.getD_none, List.length_append, List.length_cons, List.length_nil]
    omega
  have bounded := (reading_of_read done).bounded_of_checked checked short
  have agree := read_agree (outline_flags pattern) (byteLength pattern.bare.wrapped.toList / 2) 0
    pattern.source.toList
  rcases bounded.inside rfl rfl 0 with ⟨final, alone, same⟩ | ⟨position, unopened⟩
  · rw [alone.read_eq] at agree
    rcases agree.cases with ⟨_, failed, _⟩ | ⟨_, other, found, bare, alike⟩
    · cases failed
    · cases found
      refine .inl ⟨other, bare, ?_⟩
      rw [same, ← Expr.grouped_outline, State.outline_expression alike, Expr.grouped_outline]
  · rw [unopened] at agree
    rcases agree.cases with ⟨_, failed, bare⟩ | ⟨_, _, found, _⟩
    · cases failed
      exact .inr ⟨position, bare⟩
    · cases found

/-- A source that is read alone is read alike in the group of the flags. -/
theorem parse_of_read_bare (flagged : pattern.flags.letters ≠ "")
    (alone : pattern.bare.readSource = .ok final) :
    (∃ expression, Regex.Parser.parse pattern.wrapped.toList = .ok expression ∧
        expression.outline = final.level.expression.grouped.outline) ∨
      ∃ problem, Regex.Parser.parse pattern.wrapped.toList = .error problem ∧
        RefusedFlagged pattern problem := by
  obtain ⟨place, text⟩ := parse_wrapped flagged
  rw [behindFlags] at text
  have agree := read_agree (outline_flags pattern) (byteLength pattern.bare.wrapped.toList / 2) 0
    pattern.source.toList
  have bare : read (byteLength pattern.bare.wrapped.toList / 2) {} 0 pattern.source.toList =
      .ok final := alone
  rw [bare] at agree
  obtain ⟨other, _, done, found, alike⟩ : ∃ other fellow, _ ∧ _ ∧ _ :=
    agree.cases.resolve_left fun ⟨_, _, failed⟩ => by cases failed
  cases found
  have reading := reading_of_read done
  obtain ⟨behind, same | deep | ⟨unclosed, skips, commented⟩⟩ :=
    reading.around (bound_le pattern) (List.cons_ne_nil (Enclosure.plain {}, {}) [])
      (List.suffix_refl _) place
  · rw [same, reading.read_parenthesis] at text
    split at text
    · rename_i mixes
      have both : final.numbered && !final.names.isEmpty :=
        (congrArg (fun state : State => state.numbered && !state.names.isEmpty) alike).symm.trans mixes
      obtain ⟨numbered, named⟩ := Bool.and_eq_true_iff.mp both
      exact .inr ⟨_, text, .mixed alone numbered (by simpa using named)⟩
    · let level : Regex.Parser.Level := {}
      refine .inl ⟨(level.add other.level.expression.grouped).expression, text, ?_⟩
      rw [Regex.Parser.Level.expression_add, ← Expr.grouped_outline, State.outline_expression alike,
        Expr.grouped_outline]
  · rw [deep] at text
    exact .inr ⟨_, text, .tooDeep behind⟩
  · rw [unclosed] at text
    refine .inr ⟨_, text, .unclosed behind alone ?_ commented⟩
    exact (congrArg (fun state : State => state.modes.skipBlanks) alike).symm.trans skips

/-- A source whose pattern compiles with flags is refused without them for few reasons. -/
theorem refused_bare (flagged : pattern.flags.letters ≠ "") {regex : Regex} {problem : Problem}
    (compiled : pattern.compile limit = .ok regex)
    (refused : pattern.bare.compile limit = .error problem) : RefusedBare problem := by
  obtain ⟨expression, made, parsed, matched, _⟩ := compile_eq_ok_iff.mp compiled
  have bare := parse_bare pattern
  rcases read_bare_of_parse flagged parsed (Regex.Compile.checked_of_matcher matched) with
    ⟨final, alone, outline⟩ | ⟨position, unopened⟩
  · rw [alone] at bare
    rcases compile_eq_error_iff.mp refused with failed | ⟨body, obstacle, read, failed, rfl⟩
    · rw [bare] at failed
      cases failed
    · rw [bare] at read
      cases read
      have failed := (Regex.Compile.matcher_grouped _ _).mpr failed
      rw [Regex.Compile.obstacle_of_outline outline matched failed]
      exact .tooLarge
  · rw [unopened] at bare
    rcases compile_eq_error_iff.mp refused with failed | ⟨body, obstacle, read, _⟩
    · rw [bare] at failed
      cases failed
      exact .unopened position
    · rw [bare] at read
      cases read

/-- A pattern whose source compiles is refused with its flags for few reasons. -/
theorem refused_flagged (flagged : pattern.flags.letters ≠ "") {regex : Regex} {problem : Problem}
    (compiled : pattern.bare.compile limit = .ok regex)
    (refused : pattern.compile limit = .error problem) : RefusedFlagged pattern problem := by
  obtain ⟨body, made, parsed, matched, _⟩ := compile_eq_ok_iff.mp compiled
  rw [parse_bare] at parsed
  obtain ⟨final, alone, rfl⟩ := Attempt.map_eq_ok_iff.mp parsed
  obtain ⟨_, grouped⟩ := Regex.Compile.exists_matcher_grouped matched
  rcases parse_of_read_bare flagged alone with ⟨expression, read, outline⟩ | ⟨_, failed, why⟩
  · rcases compile_eq_error_iff.mp refused with failed | ⟨_, obstacle, again, failed, rfl⟩
    · rw [read] at failed
      cases failed
    · rw [read] at again
      cases again
      rw [Regex.Compile.obstacle_of_outline outline.symm grouped failed]
      exact .tooLarge
  · rcases compile_eq_error_iff.mp refused with same | ⟨_, _, read, _⟩
    · rw [failed] at same
      cases same
      exact why
    · rw [failed] at read
      cases read

/-- Flags leave the validity of a pattern alone and cover all of its source, with the exceptions
listed: if the pattern compiles with its flags, its source is refused without them for two reasons
only; if the source compiles, the pattern is refused for four reasons only; and what the text of the
pattern is read as is the group of what its source is read as in the modes of the flags, unless the
source closes that group. -/
theorem flags_keep_validity (pattern : Pattern) (flagged : pattern.flags.letters ≠ "")
    (limit : Nat) :
    ((∃ regex, pattern.compile limit = .ok regex) →
      ∀ problem, pattern.bare.compile limit = .error problem → RefusedBare problem) ∧
    ((∃ regex, pattern.bare.compile limit = .ok regex) →
      ∀ problem, pattern.compile limit = .error problem → RefusedFlagged pattern problem) ∧
    ∀ expression, Regex.Parser.parse pattern.wrapped.toList = .ok expression →
      (∃ final, pattern.readSource = .ok final ∧ expression = final.level.expression.grouped) ∨
        ∃ position, pattern.readSource = .error (.malformed position .unopenedGroup) := by
  refine ⟨?_, ?_, fun _ => parse_covers flagged⟩
  · rintro ⟨_, compiled⟩ problem refused
    exact refused_bare flagged compiled refused
  · rintro ⟨_, compiled⟩ problem refused
    exact refused_flagged flagged compiled refused

/-- Alternatives compile with flags as they do without, and the flags hold for both of them. -/
theorem flagged_alternatives_covered :
    let pattern : Pattern := ⟨"x|y", { caseInsensitive := true }⟩
    pattern.flags.letters ≠ "" ∧ (∃ regex, pattern.compile defaultLimit = .ok regex) ∧
      (∃ regex, pattern.bare.compile defaultLimit = .ok regex) ∧
      ∃ expression final, Regex.Parser.parse pattern.wrapped.toList = .ok expression ∧
        pattern.readSource = .ok final ∧ expression = final.level.expression.grouped := by
  intro pattern
  have flagged : pattern.flags.letters ≠ "" := by decide
  obtain ⟨regex, compiled⟩ := @exists_of_made pattern defaultLimit (by decide +kernel)
  have without := @exists_of_made pattern.bare defaultLimit (by decide +kernel)
  obtain ⟨expression, _, parsed, _⟩ := compile_eq_ok_iff.mp compiled
  have opened : pattern.readSource.toOption.isSome := by decide +kernel
  rcases (flags_keep_validity pattern flagged defaultLimit).2.2 expression parsed with
    ⟨final, read, same⟩ | ⟨position, unopened⟩
  · exact ⟨flagged, ⟨regex, compiled⟩, without, expression, final, parsed, read, same⟩
  · rw [unopened] at opened
    cases opened

/-- A source that closes the group of its flags compiles with them, although it is malformed, and
what it goes on with is outside of the group: of two alternatives only the first is found whatever
its case. A source that ends with a comment does not compile with flags, although it does without. -/
theorem group_of_flags_closed :
    let closing : Pattern := ⟨"a)|(b", { caseInsensitive := true }⟩
    let comment : Pattern := ⟨"(?x)a#b", { caseInsensitive := true }⟩
    (∃ regex, closing.compile defaultLimit = .ok regex ∧ (regex.scan ['A']).spans = [(0, 1)] ∧
        (regex.scan ['b']).spans = [(0, 1)] ∧ (regex.scan ['B']).spans = []) ∧
      closing.bare.compile defaultLimit = .error (.malformed 1 .unopenedGroup) ∧
      (∃ regex, comment.bare.compile defaultLimit = .ok regex) ∧
      comment.compile defaultLimit = .error (.malformed 12 .unclosedGroup) := by
  intro closing comment
  have finds : (closing.compile defaultLimit).toOption.any fun regex =>
      (regex.scan ['A']).spans = [(0, 1)] ∧ (regex.scan ['b']).spans = [(0, 1)] ∧
        (regex.scan ['B']).spans = [] := by
    decide +kernel
  have without : (comment.bare.compile defaultLimit).toOption.isSome := by decide +kernel
  refine ⟨?_, compile_eq_error_iff.mpr (.inl (by decide +kernel)), exists_of_made without,
    compile_eq_error_iff.mpr (.inl (by decide +kernel))⟩
  cases compiled : closing.compile defaultLimit with
  | error problem =>
    rw [compiled] at finds
    cases finds
  | ok regex =>
    rw [compiled] at finds
    exact ⟨regex, rfl, of_decide_eq_true finds⟩

end Highlighter.Pattern

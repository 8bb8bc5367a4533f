import Highlighter.Grammar.Basic
import Highlighter.Proofs.Regex.Ahead
import Highlighter.Proofs.Regex.Prefixes

/-!
# Names in front of a parenthesis

The pattern of functions is that of identifiers with the text of a call site behind it. The call
site belongs to the sequence that it stands in. So it holds for all that the identifiers match if
their text is one sequence, that is, without alternatives outside of parentheses, and if the text
does not end where blanks and comments are skipped. `Pattern.Undivided` says so, and then each
match of a function ends in front of a parenthesis, see `calls_followed`.

Proof: the reader comes behind the identifiers in the state in which it leaves their text alone,
reads the call site there, and closes the group that flags enclose the pattern in. What it has
read ends by looking ahead at a parenthesis.
-/

namespace Highlighter

open Text (byteLength)
open Regex (Expr)

namespace Regex.Parser

variable {bound : Nat} {first : Char} {others text between rest ending : List Char}
  {state middle next : State}

/-- The reader comes from a state in front of a text to another one in front of what is left of
it, wherever in a pattern the text stands. -/
def Comes (bound : Nat) (state : State) (text : List Char) (next : State) (rest : List Char) :
    Prop :=
  ∀ position, ∃ place, read bound state position text = read bound next place rest

theorem Comes.trans (former : Comes bound state text middle between)
    (latter : Comes bound middle between next rest) : Comes bound state text next rest := by
  intro position
  obtain ⟨place, same⟩ := former position
  obtain ⟨behind, again⟩ := latter place
  exact ⟨behind, same.trans again⟩

/-- What begins neither a comment nor a blank is not skipped. -/
theorem visible_of_apart (reads : state.modes.skipBlanks = false) (mark : first ≠ '#')
    (bare : ∀ inner, first :: others ≠ ['(', '?', '#'] ++ inner) (position : Nat) :
    blank state.modes position (first :: others) = .ok 0 := by
  rw [blank_of_uncommented bare mark, reads]
  rfl

/-- The reader comes behind a part. -/
theorem comes_of_part (taken : Nat)
    (visible : ∀ position, blank state.modes position (first :: others) = .ok 0)
    (ready : state.waiting = none)
    (takes : ∀ position, part bound state position first others = .ok (next, taken))
    (left : others.drop taken = rest) : Comes bound state (first :: others) next rest := by
  intro position
  rw [read_part (visible position) ready, takes, ← left]
  exact ⟨_, rfl⟩

/-- A blank waits to be repeated. -/
theorem comes_blank (ready : state.waiting = none) (reads : state.modes.skipBlanks = false) :
    Comes bound state (' ' :: rest)
      { state with waiting := some (.literal ' ' state.modes.caseInsensitive) } rest :=
  comes_of_part 0 (visible_of_apart reads (by decide) (by simp)) ready (fun _ => rfl) rfl

/-- A star repeats what waits. -/
theorem comes_star {expression : Expr} (reads : state.modes.skipBlanks = false)
    (waits : state.waiting = some expression) (repeatable : expression.repeatable)
    (plain : ∀ position, manner state.modes position rest = .ok ((true, false), 0)) :
    Comes bound state ('*' :: rest) (state.repeated expression (0, none) (true, false)) rest := by
  intro position
  have visible : blank state.modes position ('*' :: rest) = .ok 0 :=
    visible_of_apart reads (by decide) (by simp) position
  rw [read_repeated visible waits rfl, if_pos repeatable]
  simp only [List.drop_succ_cons, List.drop_zero, plain]
  exact ⟨_, rfl⟩

/-- A look ahead is opened. -/
theorem comes_look_ahead (ready : state.waiting = none) (reads : state.modes.skipBlanks = false)
    (shallow : state.enclosing.length < maximalDepth) :
    Comes bound state ('(' :: '?' :: '=' :: rest)
      { state with level := {}, enclosing := (.look .ahead false, state.level) :: state.enclosing }
      rest := by
  have fits : ¬ maximalDepth ≤ state.enclosing.length := Nat.not_le_of_lt shallow
  have gap (position : Nat) : blanks state.modes position ('?' :: '=' :: rest) = .ok 0 :=
    blanks_of_visible (visible_of_apart reads (by decide) (by simp) position)
  refine comes_of_part 2 (visible_of_apart reads (by decide) (by simp)) ready
    (fun position => ?_) rfl
  simp only [part, openGroup, fits, if_false, opening, gap, bind, Except.bind, pure, Except.pure,
    ready]
  rfl

/-- An escaped parenthesis waits to be repeated. -/
theorem comes_parenthesis (ready : state.waiting = none) (reads : state.modes.skipBlanks = false) :
    Comes bound state ('\\' :: '(' :: rest) { state with waiting := some (.literal '(' false) }
      rest := by
  have described (position : Nat) : Escape.read state.modes.caseInsensitive false position
      ('(' :: rest) = .ok (.character '(' false, 1) := by
    cases rest <;> rfl
  refine comes_of_part 1 (visible_of_apart reads (by decide) (by simp)) ready
    (fun position => ?_) rfl
  simp only [part, escape, described, bind, Except.bind, pure, Except.pure, Bool.false_and]

/-- The modes behind a pair of parentheses, given those at its end. -/
def Enclosure.modesBehind (modes : Modes) : Enclosure → Modes
  | plain outer => outer
  | _ => modes

/-- A closing parenthesis closes the innermost group, with what waits in it, unless groups are
referred to both by name and by number. -/
theorem comes_close {enclosure : Enclosure} {outer : Level}
    {enclosing : List (Enclosure × Level)} (reads : state.modes.skipBlanks = false)
    (checked : (state.numbered && !state.names.isEmpty) = false)
    (opened : state.enclosing = (enclosure, outer) :: enclosing) :
    Comes bound state (')' :: rest)
      { state with
        modes := enclosure.modesBehind state.modes, level := outer, enclosing
        waiting := some (enclosure.wrap (settle state).level.expression) } rest := by
  have settled : Comes bound state (')' :: rest) (settle state) (')' :: rest) :=
    fun position => ⟨position, read_settled (.inr rfl) reads rest⟩
  have whole : settle state = { state with level := (settle state).level, waiting := none } := by
    rw [settle]
    split
    · rename_i ready
      rw [← ready]
    · rfl
  have sound : checkReferences (settle state) = .ok () := by
    rw [whole, checkReferences, Bool.and_assoc, checked, Bool.and_false]
    rfl
  refine settled.trans (comes_of_part 0 (visible_of_apart ?_ (by decide) (by simp))
    (waiting_settle state) (fun position => ?_) rfl)
  · rw [modes_settle, reads]
  · rw [part, closeGroup, sound, whole]
    simp only [bind, Except.bind, opened]
    cases enclosure <;> rfl

/-- The blanks in front of a call, as many as there are. -/
def callBlanks (modes : Modes) : Expr :=
  .repetition (.literal ' ' modes.caseInsensitive) 0 none (true != modes.swapGreed)

/-- What is ahead of a call. -/
def callAhead : Expr := .look .ahead false (.literal '(' false)

/-- The text of a call site adds the blanks and what is ahead to the sequence it stands in. -/
theorem comes_call_site (ready : state.waiting = none) (reads : state.modes.skipBlanks = false)
    (shallow : state.enclosing.length < maximalDepth)
    (checked : (state.numbered && !state.names.isEmpty) = false) :
    Comes bound state (' ' :: '*' :: '(' :: '?' :: '=' :: '\\' :: '(' :: ')' :: rest)
      { state with level := state.level.add (callBlanks state.modes), waiting := some callAhead }
      rest := by
  refine Comes.trans (comes_blank ready reads) ?_
  refine Comes.trans (comes_star reads rfl rfl fun position => ?_) ?_
  · rw [manner, blanks_of_visible (visible_of_apart reads (by decide) (by simp) position)]
    rfl
  refine Comes.trans (comes_look_ahead rfl reads shallow) ?_
  refine Comes.trans (comes_parenthesis rfl reads) ?_
  let inside : State :=
    { state with
      level := {}
      enclosing := (.look .ahead false, state.level.add (callBlanks state.modes)) :: state.enclosing
      waiting := some (.literal '(' false) }
  exact @comes_close bound rest inside _ _ _ reads checked rfl

/-- Behind a call site the reader has one sequence, which ends by looking ahead. -/
structure AtCall (state : State) : Prop where
  undivided : state.level.finished = []
  reads : state.modes.skipBlanks = false
  checked : (state.numbered && !state.names.isEmpty) = false
  waits : state.waiting = some callAhead

theorem AtCall.ends_ahead (atCall : AtCall state) :
    (settle state).level.expression.EndsAhead '(' := by
  have behind : (settle state).level.expression =
      .sequences (state.level.parts.reverse ++ [callAhead]) := by
    simp [settle, atCall.waits, Level.add, Level.expression, Level.divide, atCall.undivided,
      callAhead, Expr.alternatives]
  have last : callAhead.EndsAhead '(' := ⟨rfl, rfl, rfl⟩
  rw [behind]
  exact Expr.ends_ahead_sequences last _

/-- The only part of a level is its expression. -/
theorem ends_ahead_of_group {part : Expr} (ends : part.EndsAhead '(')
    (waits : state.waiting = some part) (level : state.level = {}) :
    (settle state).level.expression.EndsAhead '(' := by
  have filled : part ≠ .empty := by
    rintro rfl
    exact ends
  simpa [settle, waits, level, Level.add, filled, Level.expression, Level.divide, Expr.sequences,
    Expr.alternatives] using ends

/-- What is read to the end is what the reader has there. -/
theorem settle_of_read_end {final : State} {position : Nat}
    (done : read bound state position [] = .ok final) : settle state = final := by
  cases reading_of_read done with
  | ended settled => exact settled

end Regex.Parser

open Regex.Parser

/-- The modes that the flags set. -/
def Flags.modes (flags : Flags) : Modes where
  caseInsensitive := flags.caseInsensitive
  multiLine := flags.multiLine
  dotAll := flags.dotMatchesNewLine

theorem Flags.modes_of_unset {flags : Flags} (unset : flags.letters = "") : flags.modes = {} := by
  obtain ⟨insensitive, lines, dot⟩ := flags
  cases insensitive <;> cases lines <;> cases dot <;> simp [letters, modes] at unset ⊢

/-- Flags open a group with their modes. -/
theorem comes_flags {flags : Flags} (filled : flags.letters ≠ "") {bound : Nat}
    (rest : List Char) :
    Comes bound {} ('(' :: '?' :: (flags.letters.toList ++ ':' :: rest))
      { modes := flags.modes, enclosing := [(.plain {}, {})] } rest := by
  have gap (position : Nat) (others : List Char) : blanks {} position ('?' :: others) = .ok 0 :=
    blanks_of_visible rfl
  have opened (position : Nat) :
      opening {} position ('?' :: (flags.letters.toList ++ ':' :: rest)) =
        .ok (.modes flags.modes true, flags.letters.toList.length + 2) := by
    obtain ⟨insensitive, lines, dot⟩ := flags
    cases insensitive <;> cases lines <;> cases dot <;>
      simp [opening, gap, modeLetters, blank, setMode?, Flags.letters, Flags.modes, bind,
        Except.bind] at filled ⊢
  have unmarked (position : Nat) : blank {} position
      ('(' :: '?' :: (flags.letters.toList ++ ':' :: rest)) = .ok 0 := by
    obtain ⟨insensitive, lines, dot⟩ := flags
    cases insensitive <;> cases lines <;> cases dot <;>
      simp [blank, Flags.letters] at filled ⊢
  refine comes_of_part (flags.letters.toList.length + 2) unmarked rfl (fun position => ?_) (by simp)
  simp only [part, openGroup, opened, bind, Except.bind]
  rfl

namespace Pattern

theorem to_list_wrapped (pattern : Pattern) : pattern.wrapped.toList =
    if pattern.flags.letters = "" then pattern.source.toList
    else '(' :: '?' ::
      (pattern.flags.letters.toList ++ ':' :: (pattern.source.toList ++ [')'])) := by
  simp only [wrapped, String.isEmpty_iff]
  split
  · rfl
  · simp

/-- The text of the pattern is one sequence, without alternatives outside of parentheses, and does
not end where blanks and comments are skipped. -/
def undivided (pattern : Pattern) : Bool :=
  match read (byteLength pattern.wrapped.toList / 2) { modes := pattern.flags.modes } 0
    pattern.source.toList with
  | .ok final => final.level.finished.isEmpty && !final.modes.skipBlanks
  | .error _ => false

/-- Behind undivided names the reader comes to a call site, unless the parentheses are too many. -/
theorem read_call {names : Pattern} (whole : names.undivided) {larger : Nat}
    (grows : byteLength names.wrapped.toList / 2 ≤ larger)
    {outer : List (Enclosure × Regex.Parser.Level)} (shallow : outer.length < maximalDepth)
    {ending : List Char} (unbraced : '\x7d' ∉ ending) (place : Nat) :
    let text := names.source.toList ++ (Grammar.call.source.toList ++ ending)
    (∃ state behind, AtCall state ∧ state.enclosing = outer ∧
      read larger { modes := names.flags.modes, enclosing := outer } place text =
        read larger state behind ending) ∨
    ∃ behind, read larger { modes := names.flags.modes, enclosing := outer } place text =
      .error (.malformed behind .tooDeep) := by
  intro text
  unfold undivided at whole
  split at whole
  · rename_i final done
    rw [Bool.and_eq_true, List.isEmpty_iff, Bool.not_eq_true'] at whole
    obtain ⟨alone, reads⟩ := whole
    have reading := reading_of_read done
    obtain ⟨closed, ready, sound⟩ := reading.closed_at_end
    have checked : (final.numbered && !final.names.isEmpty) = false := by
      rw [checkReferences, alone] at sound
      cases both : final.numbered && !final.names.isEmpty with
      | false => rfl
      | true => simp [both] at sound
    have inside : (final.within outer).enclosing = outer := by
      rw [State.within, closed, List.nil_append]
    have shallow : (final.within outer).enclosing.length < maximalDepth := by
      rwa [inside]
    have unbraced : '\x7d' ∉ ' ' :: '*' :: '(' :: '?' :: '=' :: '\\' :: '(' :: ')' :: ending := by
      simpa using unbraced
    rcases read_append (.inl rfl) grows unbraced outer reading reads place with
      ⟨behind, same⟩ | deep
    · let state : State := { final.within outer with
        level := final.level.add (callBlanks final.modes), waiting := some callAhead }
      have comes : Comes larger (final.within outer) _ state ending :=
        comes_call_site ready reads shallow checked
      obtain ⟨further, again⟩ := comes behind
      refine .inl ⟨state, further, ⟨?_, reads, checked, rfl⟩, inside, same.trans again⟩
      simpa [state, Level.add, callBlanks] using alone
    · exact .inr deep
  · cases whole

/-- The pattern of functions ends by looking ahead at a parenthesis if the names are undivided.

Proof: the reader comes to the call site, inside of the group that flags open, and closes it. -/
theorem ends_ahead_of_parse {names : Pattern} (whole : names.undivided) {expression : Expr}
    (parsed : Regex.Parser.parse (names ++ Grammar.call).wrapped.toList = .ok expression) :
    expression.EndsAhead '(' := by
  obtain ⟨final, done, rfl⟩ := Attempt.map_eq_ok_iff.mp parsed
  have text : (names ++ Grammar.call).source.toList =
      names.source.toList ++ Grammar.call.source.toList := String.toList_append
  have flags : (names ++ Grammar.call).flags = names.flags := rfl
  have grows : byteLength names.wrapped.toList / 2 ≤
      byteLength (names ++ Grammar.call).wrapped.toList / 2 := by
    refine Nat.div_le_div_right ?_
    rw [to_list_wrapped, to_list_wrapped, flags, text]
    split <;> simp [Text.byte_length_append, Text.byte_length_cons]
  generalize byteLength (names ++ Grammar.call).wrapped.toList / 2 = bound at done grows
  rw [to_list_wrapped, text, flags] at done
  split at done
  · rename_i unset
    have shallow : ([] : List (Enclosure × Regex.Parser.Level)).length < maximalDepth := by decide
    rcases read_call whole grows shallow
      List.not_mem_nil 0 with ⟨state, behind, atCall, _, same⟩ | ⟨behind, deep⟩
    · rw [List.append_nil, Flags.modes_of_unset unset, done] at same
      rw [← settle_of_read_end same.symm]
      exact atCall.ends_ahead
    · rw [List.append_nil, Flags.modes_of_unset unset, done] at deep
      cases deep
  · rename_i filled
    obtain ⟨place, opened⟩ := comes_flags filled
      (names.source.toList ++ (Grammar.call.source.toList ++ [')'])) 0
    rw [List.append_assoc] at done
    rw [done] at opened
    have shallow : [(Enclosure.plain {}, ({} : Regex.Parser.Level))].length < maximalDepth := by
      decide
    rcases read_call whole grows shallow
      (by decide : '\x7d' ∉ [')']) place with ⟨state, behind, atCall, inside, same⟩ | ⟨behind, deep⟩
    · obtain ⟨ending, closed⟩ :=
        @comes_close bound [] state _ _ _ atCall.reads atCall.checked inside behind
      rw [same, closed] at opened
      rw [← settle_of_read_end opened.symm]
      exact ends_ahead_of_group atCall.ends_ahead.grouped rfl rfl
    · rw [deep] at opened
      cases opened

end Pattern

namespace Grammar

/-- Each match of a function ends in front of a parenthesis if the identifiers of the grammar are
undivided, whatever their text and flags are. -/
theorem calls_followed {grammar : Grammar} {names derived : Pattern}
    (given : grammar.identifiers = some names) (whole : names.undivided)
    (found : grammar.functions = some derived) {limit : Nat} {regex : Regex}
    (compiled : derived.compile limit = .ok regex) (text : List Char) (span : Nat × Nat)
    (member : span ∈ (regex.scan text).spans) :
    ∃ former latter, text = former ++ '(' :: latter ∧ span.2 = byteLength former := by
  rw [functions, given] at found
  cases found
  cases parsed : Regex.Parser.parse (names ++ call).wrapped.toList with
  | error problem =>
    rw [Pattern.compile, Regex.compile] at compiled
    simp [parsed, bind, Except.bind] at compiled
  | ok expression =>
    exact Regex.followed_of_ends_ahead parsed (Pattern.ends_ahead_of_parse whole parsed) compiled
      member

/-- Alternatives in parentheses are undivided, and flags hold for the call site too. -/
theorem grouped_call_followed :
    let names : Pattern := ⟨"(a|b)", { caseInsensitive := true }⟩
    let grammar : Grammar := { name := "", extensions := [], identifiers := some names }
    let text := "aB (".toList
    names.undivided ∧ grammar.functions = some (names ++ call) ∧
      ∃ regex, (names ++ call).compile Pattern.defaultLimit = .ok regex ∧
        (1, 3) ∈ (regex.scan text).spans ∧
        ∃ former latter, text = former ++ '(' :: latter ∧ 3 = byteLength former := by
  intro names grammar text
  have whole : names.undivided := by decide +kernel
  have reported : ((names ++ call).compile Pattern.defaultLimit).toOption.any fun regex =>
      (1, 3) ∈ (regex.scan text).spans := by decide +kernel
  cases compiled : (names ++ call).compile Pattern.defaultLimit with
  | error problem =>
    rw [compiled] at reported
    cases reported
  | ok regex =>
    rw [compiled] at reported
    have member : (1, 3) ∈ (regex.scan text).spans := of_decide_eq_true reported
    have given : grammar.identifiers = some names := rfl
    have found : grammar.functions = some (names ++ call) := rfl
    exact ⟨whole, found, regex, rfl, member,
      calls_followed given whole found compiled text _ member⟩

/-- Of identifiers with alternatives outside of parentheses only the last one is looked behind: a
letter is marked as a function, although the text has no parenthesis. -/
theorem divided_call_not_followed :
    let names : Pattern := ⟨"a|b", {}⟩
    let grammar : Grammar := { name := "", extensions := [], identifiers := some names }
    grammar.functions = some (names ++ call) ∧
      ∃ regex, (names ++ call).compile Pattern.defaultLimit = .ok regex ∧
        (0, 1) ∈ (regex.scan ['a']).spans ∧
        ¬ ∃ former latter, ['a'] = former ++ '(' :: latter ∧ 1 = byteLength former := by
  intro names grammar
  have reported : ((names ++ call).compile Pattern.defaultLimit).toOption.any fun regex =>
      (0, 1) ∈ (regex.scan ['a']).spans := by decide +kernel
  have bare : ¬ ∃ former latter, ['a'] = former ++ '(' :: latter ∧ 1 = byteLength former := by
    rintro ⟨former, latter, text, _⟩
    have among : '(' ∈ ['a'] := text ▸ List.mem_append_right former List.mem_cons_self
    exact absurd among (by decide)
  cases compiled : (names ++ call).compile Pattern.defaultLimit with
  | error problem =>
    rw [compiled] at reported
    cases reported
  | ok regex =>
    rw [compiled] at reported
    exact ⟨rfl, regex, rfl, of_decide_eq_true reported, bare⟩

end Grammar

end Highlighter

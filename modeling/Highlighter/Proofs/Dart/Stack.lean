import Highlighter.Proofs.Dart.Budget

/-!
# What searches with the patterns of Dart add to the stack

A search for literals saves one alternative for each character behind a quote, until the quote
is closed, and a search for functions one for each character of a name and each blank behind
it. The stack does not grow with the text. So a quote that is not closed for about a million
characters, or a name as long as that, ends the search, although it is far from its limit on
going back. `QuotesClose` and `NamesShort` say which texts stay below. All other patterns have
room in every text.
-/

namespace Highlighter.Dart

open Text (Cursor)
open Regex (CharClass Code Spot)
open Regex.Machine (beginning stackLimit Roomy Overflows)
open Regex.Compile (matcher)

variable {text : List Char}

/-- Each quote that does not stand in front of `>` is closed before the stack is full, or the text
ends before that. A quote behind a backslash closes nothing. -/
def QuotesClose (text : List Char) : Prop :=
  ∀ before quote after, text = before ++ quote :: after → quote = '\'' ∨ quote = '"' →
    after.head? ≠ some '>' → unescaped quote false after + 4 ≤ stackLimit

/-- Each name ends before the stack is full, with the blanks behind it. -/
def NamesShort (text : List Char) : Prop :=
  ∀ before initial after, text = before ++ initial :: after → nameBegin.contains initial →
    calledAhead true after + 2 ≤ stackLimit

/-- The stack is known to suffice for searching the text for the category. -/
def Bounded (category : Category) (text : List Char) : Prop :=
  match category with
  | .literal => QuotesClose text
  | .function => NamesShort text
  | _ => True

/-- A short text is bounded for every category. -/
theorem bounded_of_length (category : Category) (small : text.length + 4 ≤ stackLimit) :
    Bounded category text := by
  cases category with
  | literal =>
    rintro before quote after rfl _ _
    have counted := unescaped_le_length quote false after
    rw [List.length_append, List.length_cons] at small
    omega
  | function =>
    rintro before initial after rfl _
    have counted := called_ahead_le_length true after
    rw [List.length_append, List.length_cons] at small
    omega
  | _ => trivial

/-! ### Names in parts of a text -/

theorem called_ahead_append_le (inside : Bool) (former latter : List Char) :
    calledAhead inside former ≤ calledAhead inside (former ++ latter) := by
  induction former generalizing inside with
  | nil => exact Nat.zero_le _
  | cons character others induction =>
    have within := induction true
    have behind := induction false
    simp only [List.cons_append, calledAhead]
    split_ifs <;> omega

/-- A character that belongs to no word and is no blank ends what is ahead. -/
theorem called_ahead_stop {stop : Char} (apart : Unicode.isWord stop = false) (visible : stop ≠ ' ')
    (inside : Bool) (former latter : List Char) :
    calledAhead inside (former ++ stop :: latter) = calledAhead inside former := by
  induction former generalizing inside with
  | nil => simp [calledAhead, apart, visible]
  | cons character others induction => simp only [List.cons_append, calledAhead, induction]

/-- The names of parts of a text are as short as those of the whole. -/
theorem NamesShort.of_append {former latter : List Char} (short : NamesShort (former ++ latter)) :
    NamesShort former ∧ NamesShort latter := by
  constructor
  · rintro before initial after rfl begins
    have bounded := short before initial (after ++ latter) (by simp) begins
    have shorter := called_ahead_append_le true after latter
    omega
  · rintro before initial after rfl begins
    exact short (former ++ before) initial after (by simp) begins

/-- No name goes on behind a character that belongs to no word and is no blank. -/
theorem NamesShort.append {former latter : List Char} {stop : Char} (first : NamesShort former)
    (apart : Unicode.isWord stop = false) (visible : stop ≠ ' ') (second : NamesShort latter) :
    NamesShort (former ++ stop :: latter) := by
  intro before initial after split begins
  rcases List.append_eq_append_iff.mp split with ⟨middle, rfl, rest⟩ | ⟨middle, rfl, rest⟩
  · cases middle with
    | nil =>
      obtain ⟨rfl, _⟩ := List.cons.inj rest
      rw [isWord_of_name_begin begins] at apart
      cases apart
    | cons character middle =>
      obtain ⟨rfl, rfl⟩ := List.cons.inj rest
      exact second middle initial after rfl begins
  · cases middle with
    | nil =>
      obtain ⟨rfl, _⟩ := List.cons.inj rest
      rw [isWord_of_name_begin begins] at apart
      cases apart
    | cons character middle =>
      obtain ⟨rfl, rfl⟩ := List.cons.inj rest
      have same : calledAhead true (middle ++ stop :: latter) = calledAhead true middle :=
        called_ahead_stop apart visible true middle latter
      exact same ▸ first before initial middle rfl begins

/-! ### Functions -/

/-- Each blank behind a name adds one alternative. -/
theorem blanks_load_le (spot : Spot text) :
    (manyCode (.single ' ')).load (fun _ => 0) spot ≤ calledAhead false spot.here.after + 1 := by
  rw [manyCode, Code.load_star]
  generalize left : spot.here.after = after
  induction after generalizing spot with
  | nil =>
    have ended := (Cursor.next_none_iff spot.here).mpr left
    rw [Code.star_load_one_stops _ (Code.ends_one_at_end _ _ ended)]
    exact Nat.le_add_left _ _
  | cons character others induction =>
    obtain ⟨further, stepped, rest, _⟩ := Cursor.next_of_after left
    by_cases blank : character = ' '
    · subst blank
      have onward := induction ⟨spot.marks, further⟩ rest
      have longer : calledAhead false (' ' :: others) = calledAhead false others + 1 := rfl
      rw [Code.star_load_one_of_next _ stepped (by decide)]
      omega
    · have none : (Code.one (.single ' ')).ends spot = [] := by
        rw [Code.ends_one_of_next _ _ stepped, if_neg]
        exact fun same => blank (CharClass.contains_single.mp same)
      rw [Code.star_load_one_stops _ none]
      exact Nat.le_add_left _ _

/-- Where a word ends, the blanks behind it are on the stack. -/
theorem call_load_le (spot : Spot text) :
    callCode.load (fun _ => 0) spot ≤ calledAhead false spot.here.after + 1 := by
  have within : callCode.load (fun _ => 0) spot ≤ _ := Code.load_condition_le _ _ spot
  rw [Code.load_sequence, Code.load_ahead] at within
  exact Nat.le_trans within (blanks_load_le spot)

/-- Each character of a name adds one alternative, and each blank behind it.

Proof: induction over the text ahead. Inside of the name the blanks add nothing yet, for a word
does not end before its last character. -/
theorem name_load_le (spot : Spot text) :
    (Code.sequence (manyCode (.having .word)) callCode).load (fun _ => 0) spot ≤
      calledAhead true spot.here.after + 1 := by
  rw [Code.load, manyCode, Code.load_star]
  generalize left : spot.here.after = after
  induction after generalizing spot with
  | nil =>
    have ended := (Cursor.next_none_iff spot.here).mpr left
    have behind := call_load_le spot
    rw [left] at behind
    rw [Code.star_load_one_stops _ (Code.ends_one_at_end _ _ ended)]
    exact Nat.max_le.mpr ⟨Nat.le_add_left _ _, behind⟩
  | cons character others induction =>
    obtain ⟨further, stepped, rest, _⟩ := Cursor.next_of_after left
    have behind := call_load_le spot
    rw [left, calledAhead] at behind
    rw [calledAhead]
    by_cases word : Unicode.isWord character
    · have onward := induction ⟨spot.marks, further⟩ rest
      have member : (CharClass.having .word).contains character := word
      rw [Code.star_load_one_of_next _ stepped member]
      simp only [word, ↓reduceIte, Bool.false_eq_true] at behind ⊢
      omega
    · have none : (Code.one (.having .word)).ends spot = [] := by
        rw [Code.ends_one_of_next _ _ stepped, if_neg]
        exact word
      rw [Code.star_load_one_stops _ none]
      rw [if_neg word] at behind ⊢
      exact Nat.max_le.mpr ⟨Nat.le_add_left _ _, behind⟩

/-- The stack has room for searching a text with short names for functions. -/
theorem functions_roomy (short : NamesShort text) : Roomy functionsCode text := by
  intro here
  have tried : functionsCode.load (fun _ => 0) (beginning here) ≤ _ := Code.load_condition_le _ _ _
  rw [Code.load_sequence] at tried
  refine Nat.le_trans (Nat.add_le_add_left tried 1) ?_
  cases stepped : here.next? with
  | none =>
    rw [Code.load_one_at_end _ _ (show (beginning here).here.next? = none from stepped)]
    decide
  | some step =>
    obtain ⟨initial, further⟩ := step
    have next : (beginning here).here.next? = some (initial, further) := stepped
    rw [Code.load_one_of_next _ _ next]
    split
    · rename_i begins
      obtain ⟨ahead, _⟩ := (Cursor.next_some_iff here further initial).mp stepped
      have bounded := short here.before.reverse initial further.after
        (by rw [← ahead, here.spans]) begins
      have name := name_load_le ⟨(beginning here).marks, further⟩
      simp only at name
      omega
    · decide

/-! ### Literals -/

/-- A round between quotes saves the other way to go on while the first is tried. -/
theorem round_load (quote : Char) (needed : Spot text → Nat) (spot : Spot text) {character : Char}
    {further : Cursor text} (stepped : spot.here.next? = some (character, further)) :
    (roundCode quote).load needed spot =
      max (1 + if character = '\\' then (Code.one (.single quote)).load needed ⟨spot.marks, further⟩
        else 0) (if character = quote then 0 else needed ⟨spot.marks, further⟩) := by
  have complement : (CharClass.complement (union [.single quote])).contains character =
      !decide (character = quote) := by
    rw [← CharClass.contains_single_eq]
    rfl
  change max (1 + (Code.one (.single '\\')).load ((Code.one (.single quote)).load needed) spot)
    ((Code.one (.complement (union [.single quote]))).load needed spot) = _
  rw [Code.load_one_of_next _ _ stepped, Code.load_one_of_next _ _ stepped, complement,
    CharClass.contains_single_eq]
  by_cases same : character = quote <;> simp [same]

/-- The quote behind the text between quotes adds the look at what follows it. -/
theorem quote_load_le (quote : Char) (spot : Spot text) :
    (quoteCode quote).load (fun _ => 0) spot ≤ 1 := by
  refine Code.load_one_le _ (fun spot => ?_) spot
  rw [Code.load_not_ahead]
  split <;> exact Nat.le_refl _

/-- A quote behind a backslash leaves no less of the text between quotes. -/
theorem unescaped_le_escaped (quote : Char) (text : List Char) :
    unescaped quote false text ≤ unescaped quote true text := by
  cases text with
  | nil => exact Nat.le_refl _
  | cons character others =>
    simp only [unescaped, Bool.true_eq_false, and_false, ↓reduceIte]
    split <;> omega

/-- Behind a backslash, a quote is passed over in the same round, and the next round begins behind
it. -/
theorem escaped_load_le {quote : Char} (apart : quote ≠ '\\') {onward : Spot text → Nat}
    {spot : Spot text} (behind : ∀ beyond, spot.here.next? = some (quote, beyond) →
      onward ⟨spot.marks, beyond⟩ ≤ unescaped quote false beyond.after + 2) :
    (Code.one (.single quote)).load onward spot ≤ unescaped quote true spot.here.after + 1 := by
  cases stepped : spot.here.next? with
  | none =>
    rw [Code.load_one_at_end _ _ stepped]
    exact Nat.zero_le _
  | some step =>
    obtain ⟨character, beyond⟩ := step
    obtain ⟨ahead, _⟩ := (Cursor.next_some_iff spot.here beyond character).mp stepped
    rw [Code.load_one_of_next _ _ stepped, CharClass.contains_single_eq, ahead]
    by_cases quoted : character = quote
    · subst quoted
      have counted := behind beyond stepped
      simp only [unescaped, apart, decide_true, decide_false, ↓reduceIte, Bool.true_eq_false,
        and_false]
      omega
    · simp [quoted]

/-- What stands between quotes adds one alternative for each character up to the quote that closes
it, and two at its end.

Proof: induction over the text ahead. A quote behind a backslash is passed over in one round, and
the other way to go on is saved in this round, so its two characters add two. -/
theorem rounds_load_le {quote : Char} (apart : quote ≠ '\\') (spot : Spot text) :
    Regex.starLoad (roundCode quote).load true ((quoteCode quote).load fun _ => 0) spot ≤
      unescaped quote false spot.here.after + 2 := by
  generalize left : spot.here.after.length = length
  induction length using Nat.strongRecOn generalizing spot with
  | ind length induction =>
    have closing := quote_load_le quote spot
    rw [Regex.starLoad]
    generalize next : (fun reached : Spot text =>
      if _further : spot.here.index < reached.here.index then
        Regex.starLoad (roundCode quote).load true ((quoteCode quote).load fun _ => 0) reached
      else 0) = onward
    change max (1 + (roundCode quote).load onward spot) _ ≤ _
    have going {reached : Spot text} (further : spot.here.index < reached.here.index)
        (shorter : reached.here.after.length < spot.here.after.length) :
        onward reached ≤ unescaped quote false reached.here.after + 2 := by
      rw [← next]
      simp only [further, ↓reduceDIte]
      exact induction _ (left ▸ shorter) reached rfl
    cases stepped : spot.here.next? with
    | none =>
      have none : (roundCode quote).load onward spot = 1 := by
        simp [roundCode, Code.load, stepped, Regex.eitherLoad]
      rw [none]
      omega
    | some step =>
      obtain ⟨character, further⟩ := step
      obtain ⟨ahead, _⟩ := (Cursor.next_some_iff spot.here further character).mp stepped
      have first := Nat.lt_of_succ_le (Nat.le_of_eq (Cursor.index_of_next? stepped).symm)
      have fewer := Cursor.length_after_of_next? stepped
      have rest : onward ⟨spot.marks, further⟩ ≤ unescaped quote false further.after + 2 :=
        going first fewer
      rw [round_load quote onward spot stepped, ahead]
      by_cases closes : character = quote
      · subst closes
        rw [if_neg apart, if_pos rfl]
        omega
      · have longer : unescaped quote false (character :: further.after) =
            unescaped quote (character = '\\') further.after + 1 := by
          rw [unescaped, if_neg fun both => closes both.1]
        rw [if_neg closes, longer]
        by_cases backslash : character = '\\'
        · rw [if_pos backslash, decide_eq_true backslash]
          have escaped : (Code.one (.single quote)).load onward ⟨spot.marks, further⟩ ≤
              unescaped quote true further.after + 1 := by
            refine escaped_load_le apart fun beyond onwards => ?_
            have second : beyond.index = further.index + 1 := Cursor.index_of_next? onwards
            have moved : spot.here.index < beyond.index := by omega
            exact @going ⟨spot.marks, beyond⟩ moved
              (Nat.lt_trans (Cursor.length_after_of_next? onwards) fewer)
          have shorter := unescaped_le_escaped quote further.after
          omega
        · rw [if_neg backslash, decide_eq_false backslash]
          omega

/-- Where no quote of the kind is next, the text between quotes adds nothing. -/
theorem quoted_load_elsewhere {quote : Char} {place : Cursor text}
    (elsewhere : place.after.head? ≠ some quote) :
    (quotedCode quote).load (fun _ => 0) (beginning place) = 0 := by
  cases stepped : place.next? with
  | none => exact Code.load_one_at_end _ _ stepped
  | some step =>
    obtain ⟨character, further⟩ := step
    obtain ⟨ahead, _⟩ := (Cursor.next_some_iff place further character).mp stepped
    have other : character ≠ quote := by
      rintro rfl
      exact elsewhere (by rw [ahead]; rfl)
    have next : (beginning place).here.next? = some (character, further) := stepped
    rw [quotedCode, Code.load, Code.load_one_of_next _ _ next, CharClass.contains_single_eq,
      decide_eq_false other, if_neg Bool.false_ne_true]

/-- Behind a quote, the text up to the quote that closes it is on the stack. -/
theorem quoted_load_le {quote : Char} (apart : quote ≠ '\\') {place : Cursor text}
    {others : List Char} (ahead : place.after = quote :: others) :
    (quotedCode quote).load (fun _ => 0) (beginning place) ≤
      max 1 (if others.head? = some '>' then 0 else unescaped quote false others + 2) := by
  obtain ⟨further, stepped, rest, _⟩ := Cursor.next_of_after ahead
  have rounds := rounds_load_le apart ⟨(beginning place).marks, further⟩
  have next : (beginning place).here.next? = some (quote, further) := stepped
  rw [quotedCode, Code.load, Code.load_one_of_next _ _ next, CharClass.contains_single_eq,
    decide_eq_true rfl, if_pos rfl, Code.load, Code.load_not_ahead, Code.load, Code.load_star]
  simp only [rest] at rounds ⊢
  split <;> omega

/-- The stack has room for searching a text for literals whose quotes are closed. -/
theorem literals_roomy (closes : QuotesClose text) : Roomy literalsCode text := by
  intro here
  have limit : stackLimit = 1000000 := rfl
  change 1 + max (1 + (quotedCode '\'').load _ _) ((quotedCode '"').load _ _) ≤ _
  have each {quote : Char} (kind : quote = '\'' ∨ quote = '"') :
      (quotedCode quote).load (fun _ => 0) (beginning here) + 2 ≤ stackLimit := by
    by_cases next : here.after.head? = some quote
    · obtain ⟨others, ahead⟩ := List.head?_eq_some_iff.mp next
      have apart : quote ≠ '\\' := by rcases kind with rfl | rfl <;> decide
      have tried := quoted_load_le apart ahead
      have bounded := closes here.before.reverse quote others (by rw [← ahead, here.spans]) kind
      split at tried
      · omega
      · rename_i unmarked
        have enough := bounded unmarked
        omega
    · rw [quoted_load_elsewhere next]
      omega
  have single := each (.inl rfl)
  have double := each (.inr rfl)
  omega

/-! ### Overflows -/

/-- A search for literals is given up at a quote that is not closed before the stack is full. -/
theorem literals_overflow {place : Cursor text} {ahead rest : List Char}
    (split : place.after = '\'' :: (ahead ++ rest))
    (plain : ∀ character ∈ ahead, character ≠ '\'' ∧ character ≠ '\\')
    (unmarked : (ahead ++ rest).head? ≠ some '>') (long : stackLimit ≤ ahead.length) :
    Overflows literalsCode (beginning place) (ahead.length + 1) := by
  obtain ⟨further, stepped, remaining, _⟩ := Cursor.next_of_after split
  let inside : Spot text := ⟨(beginning place).marks, further⟩
  have begun : (Code.one (.single '\'')).ends (beginning place) = [inside] :=
    Code.ends_one_of_next _ (beginning place) stepped
  have looked : (Code.look 0 true (.one (.single '>'))).ends inside = [inside] := by
    rw [unmarked_ends, if_neg]
    rwa [← remaining] at unmarked
  have rounds : Overflows (.repetition (roundCode '\'') 0 none true) inside (1 * ahead.length) := by
    refine .repetition remaining (fun spot character further listed stepped => ?_) long
    obtain ⟨other, unescaped⟩ := plain character listed
    refine ⟨⟨[], ?_⟩, Nat.le_of_eq (round_cost _ _)⟩
    rw [round_ends _ _ stepped, if_neg unescaped, if_neg other]
    rfl
  have whole := ((rounds.first (quoteCode '\'')).behind looked).behind begun
  intro goals saved limit enough
  refine whole.preferred (quotedCode '"') goals saved limit ?_
  simpa [Code.cost, Cursor.back?, Nat.add_comm] using enough

/-- A search for functions is given up at a name that does not end before the stack is full. -/
theorem functions_overflow {place : Cursor text} {initial : Char} {ahead rest : List Char}
    (split : place.after = initial :: (ahead ++ rest)) (begins : nameBegin.contains initial)
    (outside : Regex.Assertion.startsWithWord place.before = false)
    (name : ∀ character ∈ ahead, Unicode.isWord character) (long : stackLimit ≤ ahead.length) :
    Overflows functionsCode (beginning place) 0 := by
  obtain ⟨further, stepped, remaining, _⟩ := Cursor.next_of_after split
  have boundary : (Code.condition .wordBoundary).ends (beginning place) = [beginning place] := by
    refine if_pos ?_
    change Regex.Assertion.holds .wordBoundary place
    rw [Regex.Assertion.holds, outside, split, Bool.false_bne]
    exact isWord_of_name_begin begins
  have begun : (Code.one nameBegin).ends (beginning place) =
      [⟨(beginning place).marks, further⟩] := by
    rw [Code.ends_one_of_next _ (beginning place) stepped, if_pos begins]
  have rounds : Overflows (manyCode (.having .word)) ⟨(beginning place).marks, further⟩
      (0 * ahead.length) := by
    refine .repetition remaining (fun spot character further listed stepped => ?_) long
    refine ⟨⟨[], ?_⟩, Nat.le_refl _⟩
    rw [Code.ends_one_of_next _ _ stepped, if_pos]
    exact name character listed
  have whole := ((rounds.first callCode).behind begun).behind boundary
  intro goals saved limit _
  exact whole goals saved limit (by simp [Code.cost])

/-! ### All patterns -/

/-- The stack has room for searching a text for a category if it is known to. -/
theorem plan_roomy : ∀ part ∈ plan, ∀ code, matcher part.2 = .ok (.machine code) →
    ∀ text, Bounded part.1 text → Roomy code text := by
  intro part listed code made text bounded
  simp only [plan, List.mem_cons, List.not_mem_nil, or_false] at listed
  rcases listed with rfl | rfl | rfl | rfl | rfl | rfl
  · rw [keywords_matcher] at made
    cases made
    exact keywords_roomy words text
  · rw [literals_matcher] at made
    cases made
    exact literals_roomy bounded
  · rw [functions_matcher] at made
    cases made
    exact functions_roomy bounded
  · rw [numbers_matcher] at made
    cases made
  · rw [classes_matcher] at made
    cases made
  · rw [comments_matcher] at made
    cases made

end Highlighter.Dart

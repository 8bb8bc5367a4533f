import Highlighter.Proofs.Markup.Marking

/-!
# Expressions that stay within a line

Most patterns match no line feed and look at none. For such an expression it makes no
difference whether a text ends or a line does, so the matches in two texts with a line feed
between them are those in the one and those in the other.

The places of a text are carried to places of the longer text. All that an expression without
line feeds can see of a place is kept by this: the next character, unless it is a line feed,
whether there is a word before it or behind it, and which of two places comes first.
-/

namespace Highlighter

open Text (Cursor)

namespace Text.Cursor

/-- The place of a text behind so many characters. -/
def ofIndex (text : List Char) (index : Nat) (inside : index ≤ text.length) : Cursor text where
  before := (text.take index).reverse
  after := text.drop index
  index := index
  spans := by rw [List.reverse_reverse, List.take_append_drop]
  counts := by rw [List.length_reverse, List.length_take, Nat.min_eq_left inside]

/-- A place of a text, with another text behind a line feed. -/
def inFormer {former : List Char} (latter : List Char) (place : Cursor former) :
    Cursor (former ++ '\n' :: latter) where
  before := place.before
  after := place.after ++ '\n' :: latter
  index := place.index
  spans := by rw [← List.append_assoc, place.spans]
  counts := place.counts

/-- A place of a text, with another text and a line feed before it. -/
def inLatter (former : List Char) {latter : List Char} (place : Cursor latter) :
    Cursor (former ++ '\n' :: latter) where
  before := place.before ++ '\n' :: former.reverse
  after := place.after
  index := place.index + (former.length + 1)
  spans := by
    rw [List.reverse_append, List.reverse_cons, List.reverse_reverse, List.append_assoc,
      List.append_assoc, place.spans, List.singleton_append]
  counts := by
    rw [List.length_append, List.length_cons, List.length_reverse, place.counts]

variable {former latter : List Char}

/-- A place up to the line feed is one of the former text. -/
theorem exists_in_former {place : Cursor (former ++ '\n' :: latter)}
    (inside : place.index ≤ former.length) : ∃ own : Cursor former, place = own.inFormer latter :=
  ⟨ofIndex former place.index inside, eq_of_index rfl⟩

/-- A place behind the line feed is one of the latter text. -/
theorem exists_in_latter {place : Cursor (former ++ '\n' :: latter)}
    (behind : former.length < place.index) : ∃ own : Cursor latter, place = own.inLatter former := by
  have bounded := place.index_le_length
  rw [List.length_append, List.length_cons] at bounded
  refine ⟨ofIndex latter (place.index - (former.length + 1)) (by omega), eq_of_index ?_⟩
  change place.index = place.index - (former.length + 1) + (former.length + 1)
  omega

/-- Stretches are the same with another text behind. -/
theorem slice_in_former {first last : Cursor former} (ordered : first.index ≤ last.index) :
    (first.inFormer latter).slice (last.inFormer latter) = first.slice last := by
  refine slice_of_after ?_
  change first.after ++ _ = _ ++ (last.after ++ _)
  rw [← slice_append_after ordered, List.append_assoc]

/-- Stretches are the same with another text before. -/
theorem slice_in_latter {first last : Cursor latter} (ordered : first.index ≤ last.index) :
    (first.inLatter former).slice (last.inLatter former) = first.slice last :=
  slice_of_after (slice_append_after ordered).symm

/-- A stretch across the line feed is the rest of the former text and the begin of the latter. -/
theorem slice_across (first : Cursor former) (last : Cursor latter) :
    (first.inFormer latter).slice (last.inLatter former) =
      first.after ++ '\n' :: (start latter).slice last := by
  refine slice_of_after ?_
  change first.after ++ '\n' :: latter = _ ++ last.after
  rw [List.append_assoc, List.cons_append, slice_append_after (Nat.zero_le _)]
  rfl

end Text.Cursor

namespace Regex

variable {text other : List Char}

/-- The condition looks at words only. -/
def Assertion.ofWords : Assertion → Bool
  | wordBoundary | notWordBoundary | wordStart | wordEnd => true
  | textStart | textEnd | lineStart | lineEnd => false

/-- No set of the expression has a line feed, and its conditions look at words only. -/
def Expr.inLine : Expr → Bool
  | empty => true
  | one set => !(set.getD .nothing).contains '\n'
  | assertion condition => condition.ofWords
  | sequence first second | either first second => first.inLine && second.inLine
  | repetition body _ _ _ | capture _ body | group body | look _ _ body | atomic body => body.inLine
  | reference _ => false

/-- The places of a text are carried to places of another where the same can be seen, up to the
end of the line. -/
structure Carries (carry : Cursor text → Cursor other) : Prop where
  ordered : ∀ place further, (carry place).index < (carry further).index ↔ place.index < further.index
  before : ∀ place, Assertion.startsWithWord (carry place).before =
    Assertion.startsWithWord place.before
  after : ∀ place, Assertion.startsWithWord (carry place).after =
    Assertion.startsWithWord place.after
  stepped : ∀ {place further character}, place.next? = some (character, further) →
    (carry place).next? = some (character, carry further)
  ended : ∀ {place further character}, place.next? = none →
    (carry place).next? = some (character, further) → character = '\n'

/-- A line feed is no part of a word. -/
theorem starts_with_word_line_feed (others : List Char) :
    Assertion.startsWithWord ('\n' :: others) = false := by
  have apart : Unicode.isWord '\n' = false := by decide
  exact apart

/-- A text with another one behind a line feed keeps what its places show. -/
theorem carries_in_former (former latter : List Char) :
    Carries (fun place : Cursor former => place.inFormer latter) where
  ordered _ _ := Iff.rfl
  before _ := rfl
  after place := by
    change Assertion.startsWithWord (place.after ++ '\n' :: latter) = _
    cases place.after with
    | nil => exact starts_with_word_line_feed latter
    | cons character others => rfl
  stepped {place further character} stepped := by
    obtain ⟨ahead, moved⟩ := (Cursor.next_some_iff place further character).mp stepped
    refine (Cursor.next_some_iff _ _ character).mpr ⟨?_, moved⟩
    change place.after ++ _ = character :: (further.after ++ _)
    rw [ahead, List.cons_append]
  ended {place further character} ended stepped := by
    obtain ⟨ahead, _⟩ := (Cursor.next_some_iff _ _ character).mp stepped
    change place.after ++ _ = _ at ahead
    rw [(Cursor.next_none_iff place).mp ended] at ahead
    exact (List.cons.inj ahead).1.symm

/-- A text with another one and a line feed before it keeps what its places show. -/
theorem carries_in_latter (former latter : List Char) :
    Carries (fun place : Cursor latter => place.inLatter former) where
  ordered place further := by
    change place.index + _ < further.index + _ ↔ _
    omega
  before place := by
    change Assertion.startsWithWord (place.before ++ '\n' :: former.reverse) = _
    cases place.before with
    | nil => exact starts_with_word_line_feed former.reverse
    | cons character others => rfl
  after _ := rfl
  stepped {place further character} stepped := by
    obtain ⟨ahead, moved⟩ := (Cursor.next_some_iff place further character).mp stepped
    refine (Cursor.next_some_iff _ _ character).mpr ⟨ahead, ?_⟩
    change further.before ++ _ = character :: (place.before ++ _)
    rw [moved, List.cons_append]
  ended {place further character} ended stepped := by
    obtain ⟨ahead, _⟩ := (Cursor.next_some_iff _ _ character).mp stepped
    change place.after = _ at ahead
    rw [(Cursor.next_none_iff place).mp ended] at ahead
    cases ahead

namespace Carries

variable {carry : Cursor text → Cursor other}

/-- A set without the line feed takes a carried place on as it takes the place itself. -/
theorem ends_set (carries : Carries carry) {set : CharClass}
    (line : set.contains '\n' = false) (place : Cursor text) :
    set.ends (carry place) = (set.ends place).map carry := by
  unfold CharClass.ends
  cases next : place.next? with
  | some step =>
    obtain ⟨character, further⟩ := step
    rw [carries.stepped next]
    dsimp only
    split <;> rfl
  | none =>
    cases reached : (carry place).next? with
    | none => rfl
    | some step =>
      obtain ⟨character, further⟩ := step
      obtain rfl := carries.ended next reached
      simp [line]

/-- A condition on words holds at a carried place as it does at the place itself. -/
theorem holds (carries : Carries carry) {condition : Assertion} (words : condition.ofWords)
    (place : Cursor text) : condition.holds (carry place) = condition.holds place := by
  cases condition with
  | textStart | textEnd | lineStart | lineEnd => cases words
  | wordBoundary | notWordBoundary | wordStart | wordEnd =>
    simp only [Assertion.holds, carries.before, carries.after]

section Rounds

variable {body : Cursor text → List (Cursor text)} {bodyThere : Cursor other → List (Cursor other)}

/-- Rounds in a row lead from a carried place where those from the place itself do. -/
theorem times (same : ∀ place, bodyThere (carry place) = (body place).map carry) (count : Nat)
    (place : Cursor text) :
    times bodyThere count (carry place) = (times body count place).map carry := by
  induction count generalizing place with
  | zero => rfl
  | succ count induction =>
    rw [Regex.times, Regex.times, same, List.flatMap_map, List.map_flatMap]
    exact List.flatMap_congr fun reached _ => induction reached

/-- Carrying does not change what is preferred. -/
theorem prefer (greedy : Bool) (more fewer : List (Cursor text)) :
    Regex.prefer greedy (more.map carry) (fewer.map carry) =
      (Regex.prefer greedy more fewer).map carry := by
  cases greedy
  · exact List.map_append.symm
  · exact List.map_append.symm

/-- Up to so many rounds lead from a carried place where those from the place itself do. -/
theorem up_to (same : ∀ place, bodyThere (carry place) = (body place).map carry) (greedy : Bool)
    (count : Nat) (place : Cursor text) :
    upTo greedy bodyThere count (carry place) = (upTo greedy body count place).map carry := by
  induction count generalizing place with
  | zero => rfl
  | succ count induction =>
    have onward : (bodyThere (carry place)).flatMap (upTo greedy bodyThere count) =
        ((body place).flatMap (upTo greedy body count)).map carry := by
      rw [same, List.flatMap_map, List.map_flatMap]
      exact List.flatMap_congr fun reached _ => induction reached
    rw [upTo, upTo, onward]
    exact prefer greedy _ [place]

/-- Any number of rounds lead from a carried place where those from the place itself do. -/
theorem star (carries : Carries carry)
    (same : ∀ place, bodyThere (carry place) = (body place).map carry) (greedy : Bool)
    (place : Cursor text) :
    star (fun cursor => cursor) greedy bodyThere (carry place) =
      (star (fun cursor => cursor) greedy body place).map carry := by
  induction place using Regex.star.induct (fun cursor : Cursor text => cursor) with
  | case1 place induction =>
    have onward : ((bodyThere (carry place)).flatMap fun reached =>
        if (carry place).index < reached.index then
          Regex.star (fun cursor => cursor) greedy bodyThere reached else []) =
        ((body place).flatMap fun reached =>
          if place.index < reached.index then
            Regex.star (fun cursor => cursor) greedy body reached else []).map carry := by
      rw [same, List.flatMap_map, List.map_flatMap]
      refine List.flatMap_congr fun reached _ => ?_
      by_cases further : place.index < reached.index
      · rw [if_pos ((carries.ordered place reached).mpr further), if_pos further]
        exact induction reached further
      · rw [if_neg fun moved => further ((carries.ordered place reached).mp moved), if_neg further]
        rfl
    rw [Regex.star, Regex.star]
    exact (congrArg (Regex.prefer greedy · [carry place]) onward).trans (prefer greedy _ [place])

end Rounds

/-- An expression within a line matches from a carried place as it does from the place itself. -/
theorem ends (carries : Carries carry) {expression : Expr} (line : expression.inLine)
    (place : Cursor text) :
    expression.ends (carry place) = (expression.ends place).map carry := by
  induction expression generalizing place with
  | empty => rfl
  | one set => exact carries.ends_set (by simpa [Expr.inLine] using line) place
  | assertion condition =>
    rw [Expr.ends, Expr.ends, carries.holds line]
    split <;> rfl
  | sequence first second former latter =>
    obtain ⟨lineFirst, lineSecond⟩ := Bool.and_eq_true_iff.mp line
    rw [Expr.ends, Expr.ends, former lineFirst, List.flatMap_map, List.map_flatMap]
    exact List.flatMap_congr fun reached _ => latter lineSecond reached
  | either first second former latter =>
    obtain ⟨lineFirst, lineSecond⟩ := Bool.and_eq_true_iff.mp line
    rw [Expr.ends, Expr.ends, former lineFirst, latter lineSecond, List.map_append]
  | repetition body least most greedy induction =>
    have same := induction line
    cases most with
    | none =>
      change (Regex.times _ least (carry place)).flatMap _ = ((Regex.times _ least place).flatMap _).map _
      rw [times same, List.flatMap_map, List.map_flatMap]
      exact List.flatMap_congr fun reached _ => carries.star same greedy reached
    | some most =>
      change (Regex.times _ (min least most) (carry place)).flatMap _ =
        ((Regex.times _ (min least most) place).flatMap _).map _
      rw [times same, List.flatMap_map, List.map_flatMap]
      exact List.flatMap_congr fun reached _ => up_to same greedy (most - least) reached
  | capture number body induction => exact induction line place
  | group body induction => exact induction line place
  | look direction negated body induction =>
    cases direction with
    | ahead =>
      rw [Expr.ends, Expr.ends, induction line, List.isEmpty_map]
      split <;> rfl
    | behind => rfl
  | atomic body induction => rfl
  | reference number => cases line

/-- The preferred match from a carried place is that from the place itself. -/
theorem head (carries : Carries carry) {expression : Expr} (line : expression.inLine)
    (place : Cursor text) :
    (expression.ends (carry place)).head? = (expression.ends place).head?.map carry := by
  rw [carries.ends line, List.head?_map]

end Carries

/-- The leftmost result is at the place if there is one and none is before it. -/
theorem leftmost_eq_some {Result : Type} {attempt : Cursor text → Option Result}
    {here first : Cursor text} {result : Result} (behind : here.index ≤ first.index)
    (tried : attempt first = some result)
    (earlier : ∀ place, here.index ≤ place.index → place.index < first.index →
      attempt place = none) : leftmost attempt here = some (first, result) := by
  cases found : leftmost attempt here with
  | none =>
    rw [leftmost_none found behind] at tried
    cases tried
  | some step =>
    obtain ⟨actual, reached⟩ := step
    obtain ⟨after, attempted, before⟩ := leftmost_some found
    obtain rfl : actual = first := by
      apply Cursor.eq_of_index
      rcases Nat.lt_trichotomy actual.index first.index with less | same | more
      · rw [earlier actual after less] at attempted
        cases attempted
      · exact same
      · rw [before first behind more] at tried
        cases tried
    rw [Option.some.inj (attempted.symm.trans tried)]

/-- There is no leftmost result if there is none at any place. -/
theorem leftmost_eq_none {Result : Type} {attempt : Cursor text → Option Result}
    {here : Cursor text} (missing : ∀ place, here.index ≤ place.index → attempt place = none) :
    leftmost attempt here = none := by
  cases found : leftmost attempt here with
  | none => rfl
  | some step =>
    obtain ⟨behind, attempted, _⟩ := leftmost_some found
    rw [missing step.1 behind] at attempted
    cases attempted

section Lines

variable {former latter : List Char} {expression : Expr}

/-- Behind the line feed, the matches of the latter text are found. -/
theorem first_in_latter (line : expression.inLine) (place : Cursor latter) :
    expression.first? (place.inLatter former) = (expression.first? place).map fun found =>
      (found.1.inLatter former, found.2.inLatter former) := by
  have carries := carries_in_latter former latter
  have at_own (own : Cursor latter) : (expression.ends (own.inLatter former)).head? =
      (expression.ends own).head?.map fun place => place.inLatter former := carries.head line own
  have own_of {inner : Cursor (former ++ '\n' :: latter)}
      (behind : (place.inLatter former).index ≤ inner.index) :
      ∃ own : Cursor latter, inner = own.inLatter former ∧ place.index ≤ own.index := by
    have further : former.length < inner.index := by
      change place.index + (former.length + 1) ≤ inner.index at behind
      omega
    obtain ⟨own, rfl⟩ := Cursor.exists_in_latter further
    change place.index + (former.length + 1) ≤ own.index + (former.length + 1) at behind
    exact ⟨own, rfl, by omega⟩
  cases found : expression.first? place with
  | none =>
    refine leftmost_eq_none fun inner behind => ?_
    obtain ⟨own, rfl, after⟩ := own_of behind
    rw [at_own, leftmost_none found after, Option.map_none]
  | some hit =>
    obtain ⟨behind, chosen, earlier⟩ := leftmost_some found
    refine leftmost_eq_some (Nat.add_le_add_right behind _) ?_ fun inner after before => ?_
    · rw [at_own, chosen, Option.map_some]
    · obtain ⟨own, rfl, further⟩ := own_of after
      have less : own.index < hit.1.index := (carries.ordered own hit.1).mp before
      rw [at_own, earlier own further less, Option.map_none]

/-- Up to the line feed, the matches of the former text are found. -/
theorem first_in_former (latter : List Char) {place first last : Cursor former}
    (line : expression.inLine)
    (found : expression.first? place = some (first, last)) :
    expression.first? (place.inFormer latter) =
      some (first.inFormer latter, last.inFormer latter) := by
  have carries := carries_in_former former latter
  obtain ⟨behind, chosen, earlier⟩ := leftmost_some found
  refine leftmost_eq_some behind ?_ fun inner after before => ?_
  · rw [carries.head line, chosen, Option.map_some]
  · have inside := first.index_le_length
    change inner.index < first.index at before
    obtain ⟨own, rfl⟩ := Cursor.exists_in_former (by omega : inner.index ≤ former.length)
    rw [carries.head line, earlier own after before, Option.map_none]

/-- Where nothing more matches in the former text, the search goes on behind the line feed. -/
theorem first_across (latter : List Char) {place : Cursor former} (line : expression.inLine)
    (missing : expression.first? place = none) :
    expression.first? (place.inFormer latter) =
      expression.first? ((Cursor.start latter).inLatter former) := by
  have carries := carries_in_former former latter
  have none (inner : Cursor (former ++ '\n' :: latter)) (after : place.index ≤ inner.index)
      (inside : inner.index ≤ former.length) : (expression.ends inner).head? = none := by
    obtain ⟨own, rfl⟩ := Cursor.exists_in_former inside
    rw [carries.head line, leftmost_none missing after, Option.map_none]
  have begin : ((Cursor.start latter).inLatter former).index = former.length + 1 := Nat.zero_add _
  cases found : expression.first? ((Cursor.start latter).inLatter former) with
  | none =>
    refine leftmost_eq_none fun inner after => ?_
    by_cases inside : inner.index ≤ former.length
    · exact none inner after inside
    · exact leftmost_none found (by omega)
  | some hit =>
    obtain ⟨behind, chosen, earlier⟩ := leftmost_some found
    have bounded := place.index_le_length
    refine leftmost_eq_some ?_ chosen fun inner after before => ?_
    · change place.index ≤ _
      omega
    · by_cases inside : inner.index ≤ former.length
      · exact none inner after inside
      · exact earlier inner (by omega) before

/-- Behind the line feed, a scan records what it does in the latter text. -/
theorem Hits.in_latter (former : List Char) (line : expression.inLine)
    (tame : expression.tame) {place : Cursor latter}
    {hits : List (Cursor latter × Cursor latter)} {found : List Found} {rest : List Char}
    (scanned : Hits expression place hits found rest) :
    ∃ copies, Hits expression (place.inLatter former) copies found rest := by
  induction scanned with
  | @finished place missing =>
    have nothing : expression.first? (place.inLatter former) = none := by
      rw [first_in_latter line, missing, Option.map_none]
    exact ⟨[], .finished nothing⟩
  | @hit place first last hits found rest matched others induction =>
    obtain ⟨begins, ends⟩ := Expr.first_ordered tame matched
    obtain ⟨copies, further⟩ := induction
    have matchedThere : expression.first? (place.inLatter former) =
        some (first.inLatter former, last.inLatter former) := by
      rw [first_in_latter line, matched, Option.map_some]
    have hit := Hits.hit matchedThere further
    rw [Cursor.slice_in_latter begins, Cursor.slice_in_latter ends] at hit
    exact ⟨_, hit⟩

/-- What is found in two texts with a line feed between them is what is found in each of them. So
the markup around it is that of the one text and that of the other. -/
theorem Hits.lines (line : expression.inLine) (tame : expression.tame) {place : Cursor former}
    {hits : List (Cursor former × Cursor former)} {found : List Found} {rest : List Char}
    (scanned : Hits expression place hits found rest)
    {hitsLatter : List (Cursor latter × Cursor latter)} {foundLatter : List Found}
    {restLatter : List Char}
    (behind : Hits expression (Cursor.start latter) hitsLatter foundLatter restLatter) :
    ∃ copies foundBoth restBoth, Hits expression (place.inFormer latter) copies foundBoth restBoth ∧
      ∀ markup category, Markup.marking markup category foundBoth restBoth =
        Markup.marking markup category found rest ++
          '\n' :: Markup.marking markup category foundLatter restLatter := by
  induction scanned with
  | @finished place missing =>
    have across := first_across latter line missing
    cases behind with
    | finished none =>
      rw [first_in_latter line, none, Option.map_none] at across
      exact ⟨[], [], _, .finished across, fun _ _ => rfl⟩
    | @hit _ first last hits found rest matched others =>
      rw [first_in_latter line, matched, Option.map_some] at across
      obtain ⟨_, ends⟩ := Expr.first_ordered tame matched
      obtain ⟨copies, further⟩ := others.in_latter former line tame
      have hit := Hits.hit across further
      rw [Cursor.slice_across, Cursor.slice_in_latter ends] at hit
      refine ⟨_, _, _, hit, fun markup category => ?_⟩
      simp only [Markup.marking, List.flatMap_cons, List.flatMap_nil, List.append_assoc,
        List.nil_append, List.cons_append]
  | @hit place first last hits found rest matched others induction =>
    obtain ⟨begins, ends⟩ := Expr.first_ordered tame matched
    obtain ⟨copies, foundBoth, restBoth, further, marks⟩ := induction
    have hit := Hits.hit (first_in_former latter line matched) further
    rw [Cursor.slice_in_former begins, Cursor.slice_in_former ends] at hit
    refine ⟨_, _, _, hit, fun markup category => ?_⟩
    have onward := marks markup category
    simp only [Markup.marking, List.flatMap_cons, List.append_assoc] at onward ⊢
    rw [onward]

end Lines

/-- Nothing else is found by a scan than what it finds. -/
theorem Hits.unique {expression : Expr} {place : Cursor text}
    {hits copies : List (Cursor text × Cursor text)} {found again : List Found}
    {rest behind : List Char} (scanned : Hits expression place hits found rest)
    (repeated : Hits expression place copies again behind) :
    hits = copies ∧ found = again ∧ rest = behind := by
  induction scanned generalizing copies again behind with
  | finished missing =>
    cases repeated with
    | finished _ => exact ⟨rfl, rfl, rfl⟩
    | hit matched _ =>
      rw [missing] at matched
      cases matched
  | hit matched others induction =>
    cases repeated with
    | finished missing =>
      rw [missing] at matched
      cases matched
    | hit rematched further =>
      obtain ⟨rfl, rfl⟩ := Prod.mk.inj (Option.some.inj (matched.symm.trans rematched))
      obtain ⟨rfl, rfl, rfl⟩ := induction further
      exact ⟨rfl, rfl, rfl⟩

end Regex

end Highlighter

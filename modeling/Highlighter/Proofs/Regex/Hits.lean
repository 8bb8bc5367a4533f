import Highlighter.Proofs.Regex.Search

/-!
# The matches of a scan and those of another

What `Hits` says of a scan, read off: its matches lie one behind the other, each is preferred
where it begins, and what the scan records are the stretches between them. If no match begins
inside of another one, every match there is has been found.

Two texts may be scanned with the same expression, one of them being the other with something
put in between. `Mirrors` asks for what has to be known of single places; then the scans
correspond match by match, whatever either of them skips in between.
-/

namespace Highlighter.Regex

open Text (Cursor)

variable {text : List Char} {expression : Expr} {place : Cursor text}
  {hits : List (Cursor text × Cursor text)} {found : List Found} {rest : List Char}

/-- The parts of a sequence that lie under the matches. -/
def Found.pieces {Item : Type} : List Found → List Item → List (List Item)
  | [], _ => []
  | entry :: others, items =>
    (items.drop entry.gap.length).take entry.matched.length ::
      pieces others (items.drop (entry.gap.length + entry.matched.length))

namespace Hits

/-- Each match is preferred where it begins, and lies behind the place. -/
theorem preferred (tame : expression.tame) (scanned : Hits expression place hits found rest) :
    ∀ hit ∈ hits, (expression.ends hit.1).head? = some hit.2 ∧ place.index ≤ hit.1.index ∧
      hit.1.index ≤ hit.2.index := by
  induction scanned with
  | finished missing => exact nofun
  | @hit place first last hits found rest matched others induction =>
    obtain ⟨begins, ends⟩ := Expr.first_ordered tame matched
    intro hit listed
    rcases List.mem_cons.mp listed with rfl | further
    · exact ⟨(leftmost_some matched).2.1, begins, ends⟩
    · obtain ⟨preferred, behind, ordered⟩ := induction hit further
      exact ⟨preferred, by omega, ordered⟩

/-- The matches lie one behind the other. -/
theorem ordered (tame : expression.tame) (scanned : Hits expression place hits found rest) :
    hits.Pairwise fun hit other => hit.2.index ≤ other.1.index := by
  induction scanned with
  | finished missing => exact .nil
  | hit matched others induction =>
    refine .cons ?_ induction
    intro other listed
    exact (others.preferred tame other listed).2.1

/-- Each match is recorded once. -/
theorem length_found (scanned : Hits expression place hits found rest) :
    found.length = hits.length := by
  induction scanned with
  | finished missing => rfl
  | hit matched others induction => rw [List.length_cons, List.length_cons, induction]

/-- Of two matches that are found, one lies behind the other, unless they are the same. -/
theorem disjoint (tame : expression.tame) (scanned : Hits expression place hits found rest)
    {hit other : Cursor text × Cursor text} (listed : hit ∈ hits) (among : other ∈ hits) :
    hit = other ∨ hit.2.index ≤ other.1.index ∨ other.2.index ≤ hit.1.index := by
  let apart (hit other : Cursor text × Cursor text) : Prop :=
    hit.2.index ≤ other.1.index ∨ other.2.index ≤ hit.1.index
  have symmetric : Std.Symm apart := ⟨fun _ _ => Or.symm⟩
  have pairs : hits.Pairwise apart := (scanned.ordered tame).imp Or.inl
  by_cases same : hit = other
  · exact .inl same
  · exact .inr (pairs.forall listed among same)

/-- Matches and rest are what lay behind the place. -/
theorem text_after (tame : expression.tame) (scanned : Hits expression place hits found rest) :
    found.flatMap Found.text ++ rest = place.after := by
  induction scanned with
  | finished missing => rfl
  | @hit place first last hits found rest matched others induction =>
    obtain ⟨begins, ends⟩ := Expr.first_ordered tame matched
    rw [List.flatMap_cons, List.append_assoc, induction, Found.text,
      Cursor.slice_append_slice begins ends, Cursor.slice_append_after (Nat.le_trans begins ends)]

/-- Each record belongs to a match, and what the scan accounts for before it and behind it lies
before and behind the match.

Proof: induction over the records before it. -/
theorem split (tame : expression.tame) {former latter : List Found} {entry : Found}
    (scanned : Hits expression place hits (former ++ entry :: latter) rest) :
    ∃ hit ∈ hits, entry.matched = hit.1.slice hit.2 ∧
      place.before.reverse ++ (former.flatMap Found.text ++ entry.gap) = hit.1.before.reverse ∧
      latter.flatMap Found.text ++ rest = hit.2.after := by
  generalize whole : former ++ entry :: latter = found at scanned
  induction scanned generalizing former with
  | finished missing => cases former <;> cases whole
  | @hit place first last hits found rest matched others induction =>
    obtain ⟨begins, ends⟩ := Expr.first_ordered tame matched
    cases former with
    | nil =>
      obtain ⟨rfl, rfl⟩ := List.cons.inj whole
      exact ⟨(first, last), List.mem_cons_self, rfl, Cursor.before_append_slice begins,
        others.text_after tame⟩
    | cons head former =>
      obtain ⟨rfl, onward⟩ := List.cons.inj whole
      obtain ⟨hit, listed, same, before, after⟩ := induction onward
      refine ⟨hit, List.mem_cons_of_mem _ listed, same, ?_, after⟩
      rw [← before, ← Cursor.before_append_slice (Nat.le_trans begins ends),
        ← Cursor.slice_append_slice begins ends]
      simp only [List.flatMap_cons, Found.text, List.append_assoc]

/-- What lies under the records lies between begin and end of the matches. -/
theorem pieces_eq {Item : Type} (tame : expression.tame)
    (scanned : Hits expression place hits found rest) (items : List Item) :
    Found.pieces found (items.drop place.index) =
      hits.map fun hit => (items.drop hit.1.index).take (hit.2.index - hit.1.index) := by
  induction scanned with
  | finished missing => rfl
  | @hit place first last hits found rest matched others induction =>
    obtain ⟨begins, ends⟩ := Expr.first_ordered tame matched
    have gap : place.index + (place.slice first).length = first.index := by
      rw [Cursor.length_slice begins]
      omega
    have whole : place.index + ((place.slice first).length + (first.slice last).length) =
        last.index := by
      rw [← Nat.add_assoc, gap, Cursor.length_slice ends]
      omega
    rw [Found.pieces, List.drop_drop, List.drop_drop, gap, whole, Cursor.length_slice ends,
      induction, List.map_cons]

/-- If no match begins inside of a match that is found, every match behind the place is found. -/
theorem complete (scanned : Hits expression place hits found rest)
    (alone : ∀ hit ∈ hits, ∀ inner : Cursor text, hit.1.index < inner.index →
      inner.index < hit.2.index → (expression.ends inner).head? = none)
    {first last : Cursor text} (preferred : (expression.ends first).head? = some last)
    (behind : place.index ≤ first.index) : (first, last) ∈ hits := by
  induction scanned with
  | finished missing =>
    rw [leftmost_none missing behind] at preferred
    cases preferred
  | @hit place begun ended hits found rest matched others induction =>
    obtain ⟨_, chosen, earlier⟩ := leftmost_some matched
    rcases Nat.lt_trichotomy first.index begun.index with before | same | inside
    · rw [earlier first behind before] at preferred
      cases preferred
    · obtain rfl := Cursor.eq_of_index same
      obtain rfl := Option.some.inj (preferred.symm.trans chosen)
      exact List.mem_cons_self
    · by_cases within : first.index < ended.index
      · rw [alone _ List.mem_cons_self first inside within] at preferred
        cases preferred
      · refine List.mem_cons_of_mem _ (induction ?_ (Nat.le_of_not_gt within))
        exact fun hit listed => alone hit (List.mem_cons_of_mem _ listed)

end Hits

/-- The expression matches in the marked text where it matches in the source, as far as the matches
there are kept. The number of a place in the source is what the count makes of its number in the
marked text. -/
structure Mirrors (expression : Expr) (marked : List Char) {source : List Char} (count : Nat → Nat)
    (kept : Cursor source → Prop) (hits : List (Cursor source × Cursor source)) : Prop where
  monotone : Monotone count
  /-- A match in the marked text begins at a character of the source, where a match that is kept
  begins in the source. -/
  forward : ∀ {first last : Cursor marked}, (expression.ends first).head? = some last →
    count first.index < count (first.index + 1) ∧
      ∃ begun ended : Cursor source, begun.index = count first.index ∧
        (expression.ends begun).head? = some ended ∧ kept begun
  /-- A match that is found in the source, and kept, is a match in the marked text. -/
  backward : ∀ hit ∈ hits, kept hit.1 → ∃ first last : Cursor marked,
    (expression.ends first).head? = some last ∧ count first.index = hit.1.index ∧
      count last.index = hit.2.index
  /-- No match that is kept begins inside of one that is not. -/
  apart : ∀ hit ∈ hits, ¬ kept hit.1 → ∀ inner ended : Cursor source,
    (expression.ends inner).head? = some ended → kept inner → hit.1.index < inner.index →
      hit.2.index ≤ inner.index

/-- What is asked of all matches that are found is asked of the later ones. -/
theorem Mirrors.later {marked source : List Char} {count : Nat → Nat} {kept : Cursor source → Prop}
    {head : Cursor source × Cursor source} {others : List (Cursor source × Cursor source)}
    (mirrors : Mirrors expression marked count kept (head :: others)) :
    Mirrors expression marked count kept others where
  monotone := mirrors.monotone
  forward := mirrors.forward
  backward hit listed := mirrors.backward hit (List.mem_cons_of_mem _ listed)
  apart hit listed := mirrors.apart hit (List.mem_cons_of_mem _ listed)

/-- The scan of the marked text finds the matches of the source that are kept, in their order.

Proof: induction over the matches of the source. The two scans have come to places of which the
one has just the matches behind it that the other has. A match that is kept comes next in both
of them; over one that is not, only the scan of the source moves on. -/
theorem Mirrors.scans {marked source : List Char} {count : Nat → Nat} {kept : Cursor source → Prop}
    [DecidablePred kept] (tame : expression.tame) {start : Cursor source}
    {originals : List (Cursor source × Cursor source)} {entries : List Found} {final : List Char}
    (original : Hits expression start originals entries final)
    (mirrors : Mirrors expression marked count kept originals) {here : Cursor marked}
    {copies : List (Cursor marked × Cursor marked)} {found : List Found} {rest : List Char}
    (scanned : Hits expression here copies found rest)
    (level : ∀ first last : Cursor marked, (expression.ends first).head? = some last →
      (here.index ≤ first.index ↔ start.index ≤ count first.index)) :
    List.Forall₂ (fun copy hit => hit.1.index = count copy.1.index ∧
        hit.2.index = count copy.2.index) copies (originals.filter fun hit => kept hit.1) := by
  induction original generalizing here copies found rest with
  | @finished start missing =>
    cases scanned with
    | finished _ => exact .nil
    | @hit _ first last _ _ _ matched _ =>
      obtain ⟨behind, chosen, _⟩ := leftmost_some matched
      obtain ⟨_, begun, ended, same, there, _⟩ := mirrors.forward chosen
      have reached := (level first last chosen).mp behind
      rw [leftmost_none missing (by omega : start.index ≤ begun.index)] at there
      cases there
  | @hit start begun ended originals entries final matched others induction =>
    obtain ⟨begins, chosen, earlier⟩ := leftmost_some matched
    obtain ⟨_, ends⟩ := Expr.first_ordered tame matched
    by_cases keeps : kept begun
    · rw [List.filter_cons_of_pos (by simpa using keeps)]
      obtain ⟨first, last, there, same, ending⟩ :=
        mirrors.backward _ List.mem_cons_self keeps
      change count first.index = begun.index at same
      change count last.index = ended.index at ending
      have behind : here.index ≤ first.index := (level first last there).mpr (by omega)
      cases scanned with
      | finished missing =>
        rw [leftmost_none missing behind] at there
        cases there
      | @hit _ actual reached _ _ _ found further =>
        obtain ⟨after, chosenHere, earlierHere⟩ := leftmost_some found
        obtain rfl : actual = first := by
          apply Cursor.eq_of_index
          rcases Nat.lt_trichotomy actual.index first.index with before | equal | late
          · obtain ⟨moves, other, otherLast, number, therein, _⟩ := mirrors.forward chosenHere
            have passed := (level actual reached chosenHere).mp after
            have short : count (actual.index + 1) ≤ count first.index := mirrors.monotone before
            rw [earlier other (by omega) (by omega)] at therein
            cases therein
          · exact equal
          · rw [earlierHere first behind late] at there
            cases there
        obtain rfl := Option.some.inj (chosenHere.symm.trans there)
        refine .cons ⟨same.symm, ending.symm⟩ (induction mirrors.later further ?_)
        intro next nextLast again
        obtain ⟨moves, _⟩ := mirrors.forward again
        constructor
        · intro passed
          have counted := mirrors.monotone passed
          omega
        · intro passed
          by_contra before
          have short : count (next.index + 1) ≤ count reached.index :=
            mirrors.monotone (Nat.lt_of_not_ge before)
          omega
    · rw [List.filter_cons_of_neg (by simpa using keeps)]
      refine induction mirrors.later scanned ?_
      intro next nextLast again
      obtain ⟨_, other, otherLast, number, therein, keepsOther⟩ := mirrors.forward again
      constructor
      · intro passed
        have reached := (level next nextLast again).mp passed
        rcases Nat.lt_trichotomy other.index begun.index with before | equal | inside
        · rw [earlier other (by omega) before] at therein
          cases therein
        · exact absurd (Cursor.eq_of_index equal ▸ keepsOther) keeps
        · have behind : ended.index ≤ other.index :=
            mirrors.apart _ List.mem_cons_self keeps other otherLast therein keepsOther inside
          omega
      · intro passed
        refine (level next nextLast again).mpr ?_
        omega

end Highlighter.Regex

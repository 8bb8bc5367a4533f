import Highlighter.Proofs.Text.Cursor
import Highlighter.Regex.Search

/-!
# A scan is its text, cut at the matches

`Finds` lists what a scan can do from a place on, one constructor for each way in which a
search ends. Every later law of scans is an induction over it, so the recursion of the
scan itself is opened once, in `scan_finds`.

Reading off gaps, matches and the rest in order gives the text that was scanned, whether
the scan came to the end or was given up. So matches lie inside the text, from left to
right and without overlap, and nothing between them is lost. No law of the matcher is
used: a match carries the order of its two ends.
-/

namespace Highlighter.Regex

open Text (Cursor byteLength)

/-- What a match accounts for: the text passed over on the way to it, and its own. -/
def Found.text (found : Found) : List Char := found.gap ++ found.matched

/-- What a scan accounts for, in order. -/
def Scan.text (scan : Scan) : List Char := scan.found.flatMap Found.text ++ scan.rest

variable {text : List Char}

/-- A match as the scan records it, `settled` being where the one before ended. -/
def Match.entry {place : Cursor text} (hit : Match place) (settled : Cursor text) : Found :=
  ⟨settled.slice hit.first, hit.first.slice hit.last⟩

/-- What an empty match adds to the record, and how far the record then reaches. Directly
behind another match it adds nothing. -/
def Match.whenEmpty {place : Cursor text} (hit : Match place) (previous : Option Nat)
    (settled : Cursor text) : List Found × Cursor text :=
  if previous = some hit.last.index then ([], settled) else ([hit.entry settled], hit.last)

/-- A scan from a place on finds these matches and leaves this rest, for this reason. The
record reaches to the settled place; the last match ended at `previous`. -/
inductive Finds (regex : Regex) : Option Nat → Cursor text → Cursor text →
    List Found → List Char → Option Problem → Prop where
  | givenUp {previous : Option Nat} {settled place : Cursor text} {problem : Problem}
      (searched : regex.find? place = .error problem) :
      Finds regex previous settled place [] settled.after (some problem)
  | finished {previous : Option Nat} {settled place : Cursor text}
      (searched : regex.find? place = .ok none) :
      Finds regex previous settled place [] settled.after none
  | emptyAtEnd {previous : Option Nat} {settled place : Cursor text} (hit : Match place)
      (searched : regex.find? place = .ok (some hit)) (empty : hit.first.index = hit.last.index)
      (atEnd : hit.last.next? = none) :
      Finds regex previous settled place (hit.whenEmpty previous settled).1
        (hit.whenEmpty previous settled).2.after none
  | emptyWithin {previous : Option Nat} {settled place further : Cursor text} {character : Char}
      {found : List Found} {rest : List Char} {problem : Option Problem} (hit : Match place)
      (searched : regex.find? place = .ok (some hit)) (empty : hit.first.index = hit.last.index)
      (stepped : hit.last.next? = some (character, further))
      (others : Finds regex (some hit.last.index) (hit.whenEmpty previous settled).2 further
        found rest problem) :
      Finds regex previous settled place ((hit.whenEmpty previous settled).1 ++ found) rest problem
  | nonempty {previous : Option Nat} {settled place : Cursor text} {found : List Found}
      {rest : List Char} {problem : Option Problem} (hit : Match place)
      (searched : regex.find? place = .ok (some hit)) (filled : hit.first.index ≠ hit.last.index)
      (others : Finds regex (some hit.last.index) hit.last hit.last found rest problem) :
      Finds regex previous settled place (hit.entry settled :: found) rest problem

/-- A scan from a place on does what `Finds` allows, behind what it had found before.

Proof: induction over the searches of the scan. Only this proof follows its recursion. -/
theorem scan_from_finds (regex : Regex) (previous : Option Nat) (before : List Found)
    (settled place : Cursor text) :
    ∃ found rest problem, Finds regex previous settled place found rest problem ∧
      regex.scanFrom previous before settled place = ⟨before.reverse ++ found, rest, problem⟩ := by
  induction previous, before, settled, place using scanFrom.induct regex with
  | case1 previous before settled place problem searched =>
    refine ⟨[], _, _, .givenUp searched, ?_⟩
    rw [scanFrom, searched, List.append_nil]
  | case2 previous before settled place searched =>
    refine ⟨[], _, _, .finished searched, ?_⟩
    rw [scanFrom, searched, List.append_nil]
  | case3 previous before settled place hit searched empty atEnd =>
    refine ⟨_, _, _, .emptyAtEnd hit searched empty atEnd, ?_⟩
    rw [scanFrom]
    simp only [searched, empty, ↓reduceDIte]
    split
    · by_cases repeated : previous = some hit.last.index <;>
        simp [Match.whenEmpty, Match.entry, repeated]
    · simp_all
  | case4 previous before settled place hit searched entry empty repeated found' settled'
      character further stepped induction =>
    obtain ⟨found, rest, problem, finds, scanned⟩ := induction
    have reached : (hit.whenEmpty previous settled).2 = settled' := by
      by_cases same : previous = some hit.last.index <;>
        simp [Match.whenEmpty, settled', repeated, same]
    refine ⟨_, rest, problem, .emptyWithin hit searched empty stepped (reached ▸ finds), ?_⟩
    have recorded : found'.reverse = before.reverse ++ (hit.whenEmpty previous settled).1 := by
      by_cases same : previous = some hit.last.index <;>
        simp [Match.whenEmpty, Match.entry, found', repeated, same, entry]
    rw [← List.append_assoc, ← recorded, ← scanned, scanFrom]
    simp only [searched, empty, ↓reduceDIte]
    split
    · simp_all
    · rename_i actual reachedBehind steppedAgain
      obtain ⟨_, rfl⟩ : character = actual ∧ further = reachedBehind := by
        simpa [stepped] using steppedAgain
      rfl
  | case5 previous before settled place hit searched entry filled induction =>
    obtain ⟨found, rest, problem, finds, scanned⟩ := induction
    refine ⟨_, rest, problem, .nonempty hit searched filled finds, ?_⟩
    rw [scanFrom]
    simp only [searched, filled, ↓reduceDIte]
    rw [scanned]
    simp [Match.entry, entry]

/-- A scan does what `Finds` allows from the start of its text. -/
theorem scan_finds (regex : Regex) (text : List Char) :
    Finds regex none (Cursor.start text) (Cursor.start text) (regex.scan text).found
      (regex.scan text).rest (regex.scan text).problem := by
  obtain ⟨found, rest, problem, finds, scanned⟩ :=
    scan_from_finds regex none [] (Cursor.start text) (Cursor.start text)
  rw [scan, scanned]
  exact finds

/-- A match extends what is accounted for from the end of the one before to its own. -/
theorem entry_text {settled place : Cursor text} (hit : Match place)
    (ordered : settled.index ≤ place.index) :
    (hit.entry settled).text ++ hit.last.after = settled.after := by
  have reached : settled.index ≤ hit.first.index := Nat.le_trans ordered hit.begins
  rw [Found.text, Match.entry, Cursor.slice_append_slice reached hit.ends,
    Cursor.slice_append_after (Nat.le_trans reached hit.ends)]

/-- An empty match extends the account to the place up to which the record then reaches. -/
theorem when_empty_text {settled place : Cursor text} (hit : Match place)
    (previous : Option Nat) (ordered : settled.index ≤ place.index) :
    (hit.whenEmpty previous settled).1.flatMap Found.text ++
        (hit.whenEmpty previous settled).2.after = settled.after ∧
      (hit.whenEmpty previous settled).2.index ≤ hit.last.index := by
  unfold Match.whenEmpty
  split
  · exact ⟨rfl, Nat.le_trans ordered hit.place_le_last⟩
  · refine ⟨?_, Nat.le_refl _⟩
    simpa using entry_text hit ordered

/-- What is found and the rest are what lay behind the settled place. -/
theorem Finds.text_after {regex : Regex} {previous : Option Nat} {settled place : Cursor text}
    {found : List Found} {rest : List Char} {problem : Option Problem}
    (finds : Finds regex previous settled place found rest problem)
    (ordered : settled.index ≤ place.index) :
    found.flatMap Found.text ++ rest = settled.after := by
  induction finds with
  | givenUp searched => rfl
  | finished searched => rfl
  | emptyAtEnd hit searched empty atEnd => exact (when_empty_text hit _ ordered).1
  | @emptyWithin previous settled place further _ _ _ _ hit searched empty stepped _ induction =>
    obtain ⟨accounted, reached⟩ := when_empty_text hit previous ordered
    have passed : further.index = hit.last.index + 1 := Cursor.index_of_next? stepped
    rw [List.flatMap_append, List.append_assoc, induction (by omega), accounted]
  | nonempty hit searched filled _ induction =>
    rw [List.flatMap_cons, List.append_assoc, induction (Nat.le_refl _), entry_text hit ordered]

/-- A scan accounts for exactly the text it was given. -/
theorem scan_text (regex : Regex) (text : List Char) : (regex.scan text).text = text :=
  (scan_finds regex text).text_after (Nat.le_refl _)

end Highlighter.Regex

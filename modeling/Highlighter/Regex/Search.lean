import Highlighter.Regex.Compile
import Highlighter.Regex.Parser

/-!
# Searching a text

A `Regex` is a compiled pattern with the limit on going back that each single search may
use. `scan` finds all matches from left to right. It returns them together with the text
between them, so that a scan, read off in order, is the text that was searched.

After a match without characters the search goes on one character later, and such a match
directly behind another match does not count.
-/

namespace Highlighter

open Text (Cursor byteLength)

/-- A compiled pattern. -/
structure Regex where
  matcher : Regex.Matcher
  /-- How often one search may go back to an earlier choice. -/
  limit : Nat

namespace Regex

/-- Compile a pattern text. -/
def compile (source : String) (limit : Nat) : Except Problem Regex := do
  let expression ← Parser.parse source.toList
  match Compile.matcher expression with
  | .ok matcher => return ⟨matcher, limit⟩
  | .error obstacle => throw (.unsupported obstacle)

/-- A match found by searching from a place on. -/
structure Match {text : List Char} (place : Cursor text) where
  first : Cursor text
  last : Cursor text
  begins : place.index ≤ first.index
  ends : first.index ≤ last.index

theorem Match.place_le_last {text : List Char} {place : Cursor text} (hit : Match place) :
    place.index ≤ hit.last.index := Nat.le_trans hit.begins hit.ends

/-- A match with characters ends behind the place. -/
theorem Match.place_lt_last {text : List Char} {place : Cursor text} (hit : Match place)
    (nonempty : hit.first.index ≠ hit.last.index) : place.index < hit.last.index :=
  Nat.lt_of_le_of_lt hit.begins (Nat.lt_of_le_of_ne hit.ends nonempty)

/-- The match between two places, if they lie in order. -/
def Match.ofEnds? {text : List Char} (place first last : Cursor text) : Option (Match place) :=
  if begins : place.index ≤ first.index then
    if ends : first.index ≤ last.index then some ⟨first, last, begins, ends⟩ else none
  else none

/-- The first match that begins at the place or behind it. -/
def find? {text : List Char} (regex : Regex) (place : Cursor text) :
    Except Problem (Option (Match place)) :=
  match regex.matcher with
  | .automaton automaton =>
    .ok ((automaton.find? place).bind fun ends => Match.ofEnds? place ends.1 ends.2)
  | .machine code =>
    match Machine.search regex.limit code place with
    | .matched marks last => .ok ((marks.lookup 0).bind fun first => Match.ofEnds? place first last)
    | .failed => .ok none
    | .exhausted => .error (.exceeded .steps)
    | .overflown => .error (.exceeded .stack)

/-- A match in its surroundings. -/
structure Found where
  /-- The text between the match before and this one. -/
  gap : List Char
  /-- The text of the match. -/
  matched : List Char
  deriving DecidableEq, Repr

/-- The matches of a text from left to right. -/
structure Scan where
  found : List Found
  /-- The text behind the last match. -/
  rest : List Char
  /-- Why the scan ended early, if it did. -/
  problem : Option Problem

/-- Scan the text from a place on. `settled` is the end of the part that `found`, whose
last element comes first, accounts for; `previous` is the end of the last match. -/
def scanFrom {text : List Char} (regex : Regex) (previous : Option Nat) (found : List Found)
    (settled place : Cursor text) : Scan :=
  match regex.find? place with
  | .error problem => ⟨found.reverse, settled.after, some problem⟩
  | .ok none => ⟨found.reverse, settled.after, none⟩
  | .ok (some hit) =>
    let entry : Found := ⟨settled.slice hit.first, hit.first.slice hit.last⟩
    if _empty : hit.first.index = hit.last.index then
      let repeated := previous = some hit.last.index
      let found := if repeated then found else entry :: found
      let settled := if repeated then settled else hit.last
      match _stepped : hit.last.next? with
      | none => ⟨found.reverse, settled.after, none⟩
      | some (_, further) => regex.scanFrom (some hit.last.index) found settled further
    else regex.scanFrom (some hit.last.index) (entry :: found) hit.last hit.last
termination_by text.length - place.index
decreasing_by
  · have passed := hit.place_le_last
    have counted := Cursor.index_of_next? _stepped
    have bounded := further.index_le_length
    omega
  · have passed := hit.place_lt_last _empty
    have bounded := hit.last.index_le_length
    omega

/-- All matches of a text. -/
def scan (regex : Regex) (text : List Char) : Scan :=
  regex.scanFrom none [] (Cursor.start text) (Cursor.start text)

/-- The byte positions of begin and end of each match. -/
def Scan.spans (scan : Scan) : List (Nat × Nat) :=
  (scan.found.foldl (fun (offset, spans) found =>
    let first := offset + byteLength found.gap
    let last := first + byteLength found.matched
    (last, (first, last) :: spans)) (0, [])).2.reverse

end Regex

end Highlighter

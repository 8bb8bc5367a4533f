/-!
# Cursors

A `Cursor` is a place between two characters of a fixed text. It keeps what lies before
the place, nearest character first, and what lies after it, so that moving by one
character and looking at either neighbour need no search. The proof fields tie both
parts to the text: a cursor cannot leave its text or disagree with it.
-/

namespace Highlighter.Text

/-- The number of bytes that the characters take in UTF-8. -/
def byteLength (characters : List Char) : Nat :=
  characters.foldl (fun total character => total + character.utf8Size) 0

/-- A place in a text. -/
structure Cursor (text : List Char) where
  /-- The characters before the place, nearest first. -/
  before : List Char
  /-- The characters after the place, nearest first. -/
  after : List Char
  /-- How many characters lie before the place. -/
  index : Nat
  spans : before.reverse ++ after = text
  counts : index = before.length

namespace Cursor

variable {text : List Char}

/-- The place before the first character. -/
def start (text : List Char) : Cursor text := ⟨[], text, 0, rfl, rfl⟩

/-- The next character and the place behind it. -/
def next? (cursor : Cursor text) : Option (Char × Cursor text) :=
  match nonempty : cursor.after with
  | [] => none
  | character :: rest =>
    some (character, ⟨character :: cursor.before, rest, cursor.index + 1,
      by simpa [nonempty] using cursor.spans, by simp [cursor.counts]⟩)

/-- The place before the character that precedes the cursor. -/
def previous? (cursor : Cursor text) : Option (Cursor text) :=
  match nonempty : cursor.before with
  | [] => none
  | character :: rest =>
    some ⟨rest, character :: cursor.after, cursor.index - 1,
      by simpa [nonempty] using cursor.spans, by simp [cursor.counts, nonempty]⟩

/-- The place a number of characters earlier, if the text reaches back so far. -/
def back? (cursor : Cursor text) : Nat → Option (Cursor text)
  | 0 => some cursor
  | count + 1 => cursor.previous?.bind fun earlier => earlier.back? count

/-- The characters between two places; none if the second does not lie behind. -/
def slice (first last : Cursor text) : List Char :=
  first.after.take (last.index - first.index)

/-- No cursor lies behind the end of its text. -/
theorem index_le_length (cursor : Cursor text) : cursor.index ≤ text.length := by
  have whole := congrArg List.length cursor.spans
  simp only [List.length_append, List.length_reverse] at whole
  have counted := cursor.counts
  omega

/-- A step forward leaves one character less ahead. -/
theorem length_after_of_next? {cursor further : Cursor text} {character : Char}
    (stepped : cursor.next? = some (character, further)) :
    further.after.length < cursor.after.length := by
  unfold next? at stepped
  split at stepped
  · simp at stepped
  · rename_i nonempty
    simp only [Option.some.injEq, Prod.mk.injEq] at stepped
    obtain ⟨_, rfl⟩ := stepped
    simp [nonempty]

/-- A step forward passes one character. -/
theorem index_of_next? {cursor further : Cursor text} {character : Char}
    (stepped : cursor.next? = some (character, further)) :
    further.index = cursor.index + 1 := by
  unfold next? at stepped
  split at stepped
  · simp at stepped
  · simp only [Option.some.injEq, Prod.mk.injEq] at stepped
    obtain ⟨_, rfl⟩ := stepped
    rfl

end Cursor

end Highlighter.Text

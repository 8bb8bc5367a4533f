import Highlighter.Text.Cursor

/-!
# Places in a text, by their number

A cursor carries both parts of its text, but its number alone decides it. The part
behind a place is a drop and the part before it a take, so stretches between places
join up: cutting a text at places in order loses nothing. The laws say nothing about
bytes; they count characters, as cursors do.

What is asked of all characters of a list is decided by going through the list, never
through all the characters there are.
-/

namespace Highlighter.Text

instance (priority := high) decidableForallMember {asked : Char → Prop} [DecidablePred asked] (list : List Char) :
    Decidable (∀ character ∈ list, asked character) :=
  List.decidableBAll asked list

instance (priority := high) decidableExistsMember {asked : Char → Prop} [DecidablePred asked] (list : List Char) :
    Decidable (∃ character ∈ list, asked character) :=
  List.decidableBEx asked list

instance (priority := high) decidableForallHead {asked : Char → Prop} [DecidablePred asked] (head : Option Char) :
    Decidable (∀ character ∈ head, asked character) :=
  Option.decidableForallMem head

end Highlighter.Text

namespace Highlighter.Text.Cursor

variable {text : List Char}

/-- The part behind a place is the text without the characters before it. -/
theorem after_drop (cursor : Cursor text) : cursor.after = text.drop cursor.index := by
  have counted : cursor.index = cursor.before.reverse.length := by
    simpa using cursor.counts
  calc cursor.after
      = (cursor.before.reverse ++ cursor.after).drop cursor.before.reverse.length :=
        List.drop_left.symm
    _ = text.drop cursor.index := by rw [cursor.spans, counted]

/-- The part before a place is the beginning of the text, nearest character first. -/
theorem before_take (cursor : Cursor text) : cursor.before.reverse = text.take cursor.index := by
  have counted : cursor.index = cursor.before.reverse.length := by
    simpa using cursor.counts
  calc cursor.before.reverse
      = (cursor.before.reverse ++ cursor.after).take cursor.before.reverse.length :=
        List.take_left.symm
    _ = text.take cursor.index := by rw [cursor.spans, counted]

/-- Two cursors of a text with one number are one cursor. -/
theorem eq_of_index {left right : Cursor text} (same : left.index = right.index) :
    left = right := by
  have before : left.before = right.before := by
    have reversed : left.before.reverse = right.before.reverse := by
      rw [before_take, before_take, same]
    exact List.reverse_inj.mp reversed
  have after : left.after = right.after := by rw [after_drop, after_drop, same]
  obtain ⟨leftBefore, leftAfter, leftIndex, _, _⟩ := left
  obtain ⟨rightBefore, rightAfter, rightIndex, _, _⟩ := right
  simp only at before after same
  subst before after same
  rfl

/-- What lies behind a place and what lies before it make up the text. -/
theorem length_after (cursor : Cursor text) : cursor.after.length = text.length - cursor.index := by
  rw [after_drop, List.length_drop]

/-- There is no step forward exactly at the end of the text. -/
theorem next_none_iff (cursor : Cursor text) : cursor.next? = none ↔ cursor.after = [] := by
  unfold next?
  split <;> simp_all

/-- A step forward moves one character from behind the place to before it. -/
theorem next_some_iff (cursor further : Cursor text) (character : Char) :
    cursor.next? = some (character, further) ↔
      cursor.after = character :: further.after ∧ further.before = character :: cursor.before := by
  constructor
  · intro stepped
    unfold next? at stepped
    split at stepped
    · simp at stepped
    · rename_i nonempty
      simp only [Option.some.injEq, Prod.mk.injEq] at stepped
      obtain ⟨rfl, rfl⟩ := stepped
      exact ⟨nonempty, rfl⟩
  · rintro ⟨nonempty, moved⟩
    have reached : further.index = cursor.index + 1 := by
      rw [further.counts, cursor.counts, moved, List.length_cons]
    unfold next?
    split
    · simp_all
    · rename_i actual rest split
      rw [nonempty] at split
      obtain ⟨rfl, rfl⟩ := List.cons.inj split
      simp only [Option.some.injEq, Prod.mk.injEq, true_and]
      exact eq_of_index reached.symm

/-- A place with a character behind it has a next place. -/
theorem next_of_after {cursor : Cursor text} {character : Char} {rest : List Char}
    (ahead : cursor.after = character :: rest) :
    ∃ further, cursor.next? = some (character, further) ∧ further.after = rest ∧
      further.before = character :: cursor.before := by
  cases stepped : cursor.next? with
  | none => simp [(next_none_iff cursor).mp stepped] at ahead
  | some step =>
    obtain ⟨actual, further⟩ := step
    obtain ⟨split, moved⟩ := (next_some_iff cursor further actual).mp stepped
    obtain ⟨rfl, rfl⟩ := List.cons.inj (split.symm.trans ahead)
    exact ⟨further, rfl, rfl, moved⟩

/-- The stretch between two places, and what lies behind the second, are what lies behind
the first. -/
theorem slice_append_after {first last : Cursor text} (ordered : first.index ≤ last.index) :
    first.slice last ++ last.after = first.after := by
  rw [slice, last.after_drop, first.after_drop]
  have moved : text.drop last.index = (text.drop first.index).drop (last.index - first.index) := by
    rw [List.drop_drop]
    congr 1
    omega
  rw [moved, List.take_append_drop]

/-- What lies before the first of two places, and the stretch between them, are what lies
before the second. -/
theorem before_append_slice {first last : Cursor text} (ordered : first.index ≤ last.index) :
    first.before.reverse ++ first.slice last = last.before.reverse := by
  have whole : (first.before.reverse ++ first.slice last) ++ last.after =
      last.before.reverse ++ last.after := by
    rw [List.append_assoc, slice_append_after ordered, first.spans, last.spans]
  exact List.append_cancel_right whole

/-- The number of characters between two places. -/
theorem length_slice {first last : Cursor text} (ordered : first.index ≤ last.index) :
    (first.slice last).length = last.index - first.index := by
  have whole := congrArg List.length (slice_append_after ordered)
  have bounded := last.index_le_length
  simp only [List.length_append, length_after] at whole
  omega

/-- Nothing lies between two places exactly if they are one. -/
theorem slice_nil_iff {first last : Cursor text} (ordered : first.index ≤ last.index) :
    first.slice last = [] ↔ first.index = last.index := by
  rw [← List.length_eq_zero_iff, length_slice ordered]
  omega

/-- Stretches join at the place between them. -/
theorem slice_append_slice {first middle last : Cursor text} (former : first.index ≤ middle.index)
    (latter : middle.index ≤ last.index) :
    first.slice middle ++ middle.slice last = first.slice last := by
  have whole : (first.slice middle ++ middle.slice last) ++ last.after =
      first.slice last ++ last.after := by
    rw [List.append_assoc, slice_append_after latter, slice_append_after former,
      slice_append_after (Nat.le_trans former latter)]
  exact List.append_cancel_right whole

/-- What comes ahead first at a place, up to another, is the stretch between them. -/
theorem slice_of_after {first last : Cursor text} {stretch : List Char}
    (ahead : first.after = stretch ++ last.after) : first.slice last = stretch := by
  have lengths := congrArg List.length ahead
  have inside := first.index_le_length
  have bounded := last.index_le_length
  simp only [List.length_append, length_after] at lengths
  have counted : last.index - first.index = stretch.length := by omega
  rw [slice, ahead, counted, List.take_left]

/-- What has been passed over lies directly before the place that is reached. -/
theorem before_of_after {first last : Cursor text} {stretch : List Char}
    (ahead : first.after = stretch ++ last.after) : last.before = stretch.reverse ++ first.before := by
  have lengths := congrArg List.length ahead
  have inside := first.index_le_length
  simp only [List.length_append, length_after] at lengths
  have ordered : first.index ≤ last.index := by omega
  have whole := before_append_slice ordered
  rw [slice_of_after ahead] at whole
  simpa using (congrArg List.reverse whole).symm

end Highlighter.Text.Cursor

import Highlighter.Text.Cursor
import Mathlib

/-!
# The bytes of a text

Places count characters, and what is reported of them counts bytes. The bytes of a text are
those of its parts, and no part but the empty one takes none.
-/

namespace Highlighter.Text

/-- The bytes of a text are those of its first character and those of the others. -/
theorem byte_length_cons (first : Char) (others : List Char) :
    byteLength (first :: others) = first.utf8Size + byteLength others := by
  have moved (total : Nat) (characters : List Char) :
      characters.foldl (fun sum character => sum + character.utf8Size) total =
        total + byteLength characters := by
    induction characters generalizing total with
    | nil => rfl
    | cons head rest induction =>
      rw [byteLength, List.foldl_cons, List.foldl_cons, induction, induction (0 + head.utf8Size)]
      omega
  rw [byteLength, List.foldl_cons, moved, Nat.zero_add]

/-- A text takes no bytes exactly if it has no characters. -/
theorem byte_length_eq_zero_iff (characters : List Char) :
    byteLength characters = 0 ↔ characters = [] := by
  cases characters with
  | nil => simp [byteLength]
  | cons first others =>
    have taken := first.utf8Size_pos
    simp only [byte_length_cons, reduceCtorEq, iff_false]
    omega

/-- The bytes of two texts one after the other. -/
theorem byte_length_append (former latter : List Char) :
    byteLength (former ++ latter) = byteLength former + byteLength latter := by
  induction former with
  | nil => simp [byteLength]
  | cons first others induction =>
    rw [List.cons_append, byte_length_cons, byte_length_cons, induction, Nat.add_assoc]

/-- Every character takes at least one byte. -/
theorem length_le_byte_length (text : List Char) : text.length ≤ byteLength text := by
  induction text with
  | nil => exact Nat.zero_le _
  | cons first others induction =>
    have taken := first.utf8Size_pos
    rw [List.length_cons, byte_length_cons]
    omega

/-- A longer begin of a text takes no fewer bytes. -/
theorem byte_length_take_le {fewer more : Nat} (ordered : fewer ≤ more) (text : List Char) :
    byteLength (text.take fewer) ≤ byteLength (text.take more) := by
  obtain ⟨rest, whole⟩ := List.take_prefix_take_left (l := text) ordered
  rw [← whole, byte_length_append]
  exact Nat.le_add_right _ _

/-- The bytes of a string are those of its characters. -/
theorem utf8_byte_size_of_list (text : List Char) :
    (String.ofList text).utf8ByteSize = byteLength text := by
  induction text with
  | nil => rfl
  | cons first others induction =>
    rw [String.ofList_cons, String.utf8ByteSize_append, String.utf8ByteSize_singleton, induction,
      byte_length_cons]

/-- The bytes of a string, counted by its characters. -/
theorem byte_length_to_list (text : String) : byteLength text.toList = text.utf8ByteSize := by
  rw [← utf8_byte_size_of_list, String.ofList_toList]

end Highlighter.Text

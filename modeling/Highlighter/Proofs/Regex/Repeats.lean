import Highlighter.Proofs.Regex.Lines
import Highlighter.Proofs.Regex.Matched

/-!
# What can be passed over

The other direction of what a match consumes: a repetition passes over any stretch of
characters of its set, and one that prefers few stops at the first place from which the
match can go on. A word passes over its letters, and alternatives over what one of them
does. Two stretches of a kind that are not followed by this kind are one, so what a pattern
passes over is often fixed by the text alone.
-/

namespace Highlighter.Text.Cursor

/-- Places with the same characters ahead are one. -/
theorem eq_of_after {text : List Char} {place other : Cursor text}
    (same : place.after = other.after) : place = other := by
  have lengths := congrArg List.length same
  rw [place.length_after, other.length_after] at lengths
  have inside := place.index_le_length
  have bounded := other.index_le_length
  exact eq_of_index (by omega)

/-- Behind what comes ahead first there is a place. -/
theorem exists_behind {text : List Char} {place : Cursor text} {stretch rest : List Char}
    (ahead : place.after = stretch ++ rest) :
    ∃ other : Cursor text, other.after = rest ∧ other.index = place.index + stretch.length := by
  have lengths := congrArg List.length ahead
  rw [place.length_after, List.length_append] at lengths
  have inside := place.index_le_length
  refine ⟨ofIndex text (place.index + stretch.length) (by omega), ?_, rfl⟩
  change text.drop (place.index + stretch.length) = rest
  rw [← List.drop_drop, ← place.after_drop, ahead, List.drop_left]

/-- A stretch leads as many places on as it has characters. -/
theorem index_of_after {text : List Char} {place other : Cursor text} {stretch : List Char}
    (ahead : place.after = stretch ++ other.after) :
    other.index = place.index + stretch.length := by
  obtain ⟨reached, same, number⟩ := exists_behind ahead
  rw [← eq_of_after same, number]

/-- The last character of a stretch is before the place behind it. -/
theorem last_of_stretch {text : List Char} {place other : Cursor text} {stretch : List Char}
    (filled : stretch ≠ []) (ahead : place.after = stretch ++ other.after) :
    other.before.head? = stretch.getLast? := by
  rw [before_of_after ahead, List.head?_append_of_ne_nil _ (by simpa using filled),
    List.head?_reverse]

/-- The character ahead of a place is the one at its position. -/
theorem head_after {text : List Char} (place : Cursor text) :
    place.after.head? = text[place.index]? := by
  rw [place.after_drop, List.head?_drop]

end Highlighter.Text.Cursor

namespace Highlighter.Regex

open Text (Cursor)

variable {text : List Char}

/-- At the end of the text no set matches. -/
theorem CharClass.ends_at_end (set : CharClass) {place : Cursor text}
    (passed : text[place.index]? = none) : set.ends place = [] := by
  rw [← place.head_after, List.head?_eq_none_iff] at passed
  unfold ends
  rw [(Cursor.next_none_iff place).mpr passed]

/-- A set takes the character at the position, if it has it, and no other. -/
theorem CharClass.ends_at {place : Cursor text} {character : Char}
    (held : text[place.index]? = some character) :
    ∃ further : Cursor text, further.index = place.index + 1 ∧
      ∀ set : CharClass, set.ends place = if set.contains character then [further] else [] := by
  rw [← place.head_after] at held
  obtain ⟨rest, ahead⟩ := List.head?_eq_some_iff.mp held
  obtain ⟨further, stepped, _⟩ := Cursor.next_of_after ahead
  refine ⟨further, Cursor.index_of_next? stepped, fun set => ?_⟩
  unfold ends
  rw [stepped]

/-- Two stretches of characters of a kind, neither of them followed by one, are the same. -/
theorem stretch_unique (kind : Char → Bool) {former other rest behind : List Char}
    (same : former ++ rest = other ++ behind) (first : ∀ character ∈ former, kind character)
    (second : ∀ character ∈ other, kind character) (ended : rest.head?.any kind = false)
    (stopped : behind.head?.any kind = false) : former = other ∧ rest = behind := by
  have taken {stretch rest : List Char} (within : ∀ character ∈ stretch, kind character)
      (ended : rest.head?.any kind = false) : (stretch ++ rest).takeWhile kind = stretch := by
    rw [List.takeWhile_append_of_pos within]
    cases rest with
    | nil => rw [List.takeWhile_nil, List.append_nil]
    | cons next others =>
      have different : kind next = false := ended
      rw [List.takeWhile_cons_of_neg (by rw [different]; exact Bool.false_ne_true), List.append_nil]
  have equal := congrArg (List.takeWhile kind) same
  rw [taken first ended, taken second stopped] at equal
  subst equal
  exact ⟨rfl, List.append_cancel_left same⟩

namespace Expr

/-- As many characters of a set as there are can be any stretch of them. -/
theorem mem_many (set : CharClass) (greedy : Bool) {stretch rest : List Char}
    (within : ∀ character ∈ stretch, set.contains character) {place : Cursor text}
    (ahead : place.after = stretch ++ rest) :
    ∃ last, last ∈ (repetition (one (some set)) 0 none greedy).ends place ∧ last.after = rest := by
  have alone (place : Cursor text) : (repetition (one (some set)) 0 none greedy).ends place =
      star (fun cursor => cursor) greedy set.ends place := List.flatMap_singleton ..
  rw [alone]
  induction stretch generalizing place with
  | nil => exact ⟨place, mem_star_self place, ahead⟩
  | cons character others induction =>
    obtain ⟨further, member, same⟩ :=
      CharClass.mem_ends_of_after ahead (within character List.mem_cons_self)
    obtain ⟨last, onward, behind⟩ :=
      induction (fun other listed => within other (List.mem_cons_of_mem _ listed)) same
    obtain ⟨_, stepped, _⟩ := CharClass.mem_ends.mp member
    have moved := Cursor.index_of_next? stepped
    exact ⟨last, mem_star_of_round member (by omega) onward, behind⟩

/-- At least one character of a set can be any stretch of them. -/
theorem mem_some {set : CharClass} {stretch rest : List Char} (filled : stretch ≠ [])
    (within : ∀ character ∈ stretch, set.contains character) {place : Cursor text}
    (ahead : place.after = stretch ++ rest) :
    ∃ last, last ∈ (repetition (one (some set)) 1 none true).ends place ∧ last.after = rest := by
  obtain ⟨character, others, rfl⟩ := List.exists_cons_of_ne_nil filled
  obtain ⟨further, member, same⟩ :=
    CharClass.mem_ends_of_after ahead (within character List.mem_cons_self)
  obtain ⟨last, onward, behind⟩ := mem_many set true
    (fun other listed => within other (List.mem_cons_of_mem _ listed)) same
  refine ⟨last, List.mem_flatMap.mpr ⟨further, ?_, ?_⟩, behind⟩
  · exact List.mem_flatMap.mpr ⟨further, member, List.mem_singleton_self _⟩
  · obtain ⟨start, same, onward⟩ := List.mem_flatMap.mp onward
    rwa [List.mem_singleton.mp same] at onward

/-- At least one character of a set pass over a stretch of them that is not empty. -/
theorem stretch_of_some {set : CharClass} {place last : Cursor text}
    (member : last ∈ (repetition (one (some set)) 1 none true).ends place) :
    ∃ stretch, stretch ≠ [] ∧ (∀ character ∈ stretch, set.contains character) ∧
      place.after = stretch ++ last.after := by
  have tame : (repetition (one (some set)) 1 none true).tame := rfl
  obtain ⟨first, others, ahead, within⟩ := filled_stretch (fun character => set.contains character)
    member tame (fun _ contained => contained) Nat.one_pos
  exact ⟨first :: others, List.cons_ne_nil _ _, within, ahead⟩

/-- A part that may be missing matches first with the part and then without it. -/
theorem optional_ends (body : Expr) (place : Cursor text) :
    (repetition body 0 (some 1) true).ends place = body.ends place ++ [place] := by
  have single : ∀ reached : Cursor text, upTo true body.ends 0 reached = [reached] := fun _ => rfl
  change ([place].flatMap (upTo true body.ends 1)) = _
  rw [List.flatMap_singleton, upTo, funext single, List.flatMap_singleton']
  rfl

/-- As few characters as possible reach to the first place from which the match goes on. -/
theorem lazy_head (onward : Cursor text → List (Cursor text)) (place : Cursor text) :
    (((repetition (one (some .anything)) 0 none false).ends place).flatMap onward).head? =
      (leftmost (fun here => (onward here).head?) place).map Prod.snd := by
  have alone : (repetition (one (some .anything)) 0 none false).ends place =
      star (fun cursor => cursor) false CharClass.anything.ends place := List.flatMap_singleton ..
  have consumes (place reached : Cursor text)
      (member : reached ∈ CharClass.anything.ends place) : place.index < reached.index := by
    obtain ⟨_, stepped, _⟩ := CharClass.mem_ends.mp member
    have moved := Cursor.index_of_next? stepped
    omega
  rw [alone]
  clear alone
  induction place using leftmost.induct fun here => (onward here).head? with
  | case1 place last found =>
    rw [leftmost_of_some found, star_of_consuming consumes, prefer, if_neg Bool.false_ne_true,
      List.singleton_append, List.flatMap_cons, List.head?_append, found]
    rfl
  | case2 place missing atEnd =>
    have none : CharClass.anything.ends place = [] := by
      unfold CharClass.ends
      rw [atEnd]
    rw [leftmost_at_end missing atEnd, star_of_consuming consumes, none, prefer,
      if_neg Bool.false_ne_true, List.flatMap_nil, List.append_nil, List.flatMap_singleton, missing]
    rfl
  | case3 place missing character further stepped induction =>
    have next : CharClass.anything.ends place = [further] := by
      have any : CharClass.anything.contains character = true := rfl
      unfold CharClass.ends
      rw [stepped]
      simp only [any, if_true]
    rw [leftmost_of_next missing stepped, star_of_consuming consumes, next, prefer,
      if_neg Bool.false_ne_true, List.flatMap_singleton, List.singleton_append, List.flatMap_cons,
      List.head?_append, missing, Option.none_or]
    exact induction

/-- Literals match a word that is ahead, and then what follows them is tried. -/
theorem mem_literals {word : List Char} {others : List Expr} {place middle last : Cursor text}
    (ahead : place.after = word ++ middle.after) (onward : last ∈ (sequences others).ends middle) :
    last ∈ (sequences ((word.map fun letter => literal letter false) ++ others)).ends place := by
  induction word generalizing place with
  | nil =>
    obtain rfl : place = middle := Cursor.eq_of_after ahead
    exact onward
  | cons letter further induction =>
    obtain ⟨next, member, same⟩ :=
      CharClass.mem_ends_of_after ahead (CharClass.contains_single.mpr rfl)
    exact mem_sequences_cons.mpr ⟨next, member, induction same⟩

/-- What one of the alternatives matches is matched by all of them together. -/
theorem mem_alternatives {options : List Expr} {option : Expr} (listed : option ∈ options)
    {place last : Cursor text} (member : last ∈ option.ends place) :
    last ∈ (alternatives options).ends place := by
  induction options with
  | nil => cases listed
  | cons head others induction =>
    cases others with
    | nil =>
      obtain rfl := List.mem_singleton.mp listed
      exact member
    | cons next further =>
      rcases List.mem_cons.mp listed with rfl | later
      · exact List.mem_append_left _ member
      · exact List.mem_append_right _ (induction later)

end Expr

end Highlighter.Regex

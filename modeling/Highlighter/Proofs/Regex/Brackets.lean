import Highlighter.Regex.Bracket
import Mathlib

/-!
# Bracket expressions that make sense

A bracket expression makes sense or not by the order of its items, whatever the sets among them hold
and whether or not case is regarded. The walk through the items takes the same turns: it looks for
signs, and at the ends of ranges, and never into a set. It only matters whether there is a set at all.
-/

namespace Highlighter.Regex.Bracket

/-- The item without what its set holds. -/
def Item.outline : Item → Item
  | set members => set (members.map fun _ => .single 'a')
  | other => other

theorem Item.outline_eq_plain_iff {item : Item} {character : Char} :
    item.outline = .plain character ↔ item = .plain character := by
  cases item <;> simp [outline]

theorem outlined_head_iff {items : List Item} {character : Char} :
    (items.map Item.outline).head? = some (.plain character) ↔
      items.head? = some (.plain character) := by
  cases items <;> simp [Item.outline_eq_plain_iff]

theorem letters_outline (items : List Item) : letters (items.map Item.outline) = letters items := by
  rw [letters, letters, List.takeWhile_map, List.filterMap_map]
  congr 1
  · funext item
    cases item <;> rfl
  · congr 1
    funext item
    simp [Item.outline_eq_plain_iff]

theorem named_outline (first second : Bool) (items : List Item) :
    (named? first (items.map Item.outline)).map Prod.snd = (named? second items).map Prod.snd := by
  have ends (items : List Item) : items.map Item.outline = [.plain ':', .plain ']'] ↔
      items = [.plain ':', .plain ']'] := by
    simp [List.map_eq_cons_iff, Item.outline_eq_plain_iff]
  cases items with
  | nil => rfl
  | cons item rest =>
    by_cases colon : item = .plain ':'
    · subst colon
      simp only [List.map_cons, Item.outline, named?, outlined_head_iff]
      split <;>
        simp only [← List.map_drop, ← List.map_take, letters_outline, ends] <;>
        split <;> simp only [Option.map_map, Option.map_none] <;> rfl
    · have other : item.outline ≠ .plain ':' := Item.outline_eq_plain_iff.not.mpr colon
      unfold named?
      split
      · rename_i same
        exact absurd (List.cons.inj same).1 other
      · split
        · rename_i same
          exact absurd (List.cons.inj same).1 colon
        · rfl

theorem open_level_outline (items : List Item) :
    (openLevel (items.map Item.outline)).2 = (openLevel items).2 := by
  have hyphens (items : List Item) :
      leadingHyphens (items.map Item.outline) = leadingHyphens items := by
    simp [leadingHyphens, List.takeWhile_map, Function.comp_def, Item.outline_eq_plain_iff]
  simp only [openLevel, outlined_head_iff, ← List.map_drop]
  split <;> simp only [hyphens]

theorem operation_outline (first : Item) (rest : List Item) :
    operation? first.outline (rest.map Item.outline) = operation? first rest := by
  cases first with
  | plain character =>
    simp only [operation?, Item.outline, outlined_head_iff]
  | escaped character | set members =>
    -- Neither stands for an operation, whether there are two of them or not.
    unfold operation?
    split <;> split <;> rfl

theorem range_end_outline (rest : List Item) :
    rangeEnd? (rest.map Item.outline) = (rangeEnd? rest).map Item.outline := by
  cases rest with
  | nil => rfl
  | cons first others =>
    cases others with
    | nil => cases first <;> simp [rangeEnd?]
    | cons last further =>
      by_cases hyphen : first = .plain '-'
      · subst hyphen
        change rangeEnd? (.plain '-' :: last.outline :: further.map Item.outline) = _
        simp only [rangeEnd?, Bool.or_eq_true, decide_eq_true_eq, Item.outline_eq_plain_iff]
        split <;> rfl
      · have other : first.outline ≠ .plain '-' := Item.outline_eq_plain_iff.not.mpr hyphen
        simp [rangeEnd?, hyphen, other]

theorem member_outline (first : Item) (rest : List Item) :
    (member? first.outline (rest.map Item.outline)).map Prod.snd =
      (member? first rest).map Prod.snd := by
  have character (item : Item) : item.outline.character? = item.character? := by
    cases item <;> rfl
  rw [member?.eq_def, member?.eq_def, range_end_outline]
  cases rangeEnd? rest with
  | none =>
    cases first with
    | plain | escaped => rfl
    | set members => cases members <;> rfl
  | some last => simp only [Option.map_some, character]

/-- Whether a bracket expression makes sense does not depend on what its sets hold, nor on whether
case is regarded.

Proof: induction over the number of items. What the levels hold is not looked at, and each turn takes
the same items. -/
theorem is_some_read_outline {first second : Bool} {level other : Level} {outer others : List Level}
    (same : outer.length = others.length) (items : List Item) :
    (read? first level outer (items.map Item.outline)).isSome =
      (read? second other others items).isSome := by
  generalize counted : items.length = length
  induction length using Nat.strongRecOn generalizing items level other outer others with
  | ind length induction =>
  subst counted
  cases items with
  | nil => rw [List.map_nil, read?, read?]
  | cons item rest =>
    have onward {level other : Level} {outer others : List Level}
        (same : outer.length = others.length) (taken : Nat) :
        (read? first level outer ((rest.map Item.outline).drop taken)).isSome =
          (read? second other others (rest.drop taken)).isSome := by
      rw [← List.map_drop]
      refine induction _ ?_ same _ rfl
      rw [List.length_cons, List.length_drop]
      omega
    rw [List.map_cons, read?, read?]
    simp only [Item.outline_eq_plain_iff]
    split
    · have named := named_outline first second rest
      cases former : named? first (rest.map Item.outline) with
      | none =>
        cases latter : named? second rest with
        | none =>
          simp only [open_level_outline]
          exact onward (by simpa using same) _
        | some => simp [former, latter] at named
      | some =>
        cases latter : named? second rest with
        | none => simp [former, latter] at named
        | some =>
          simp only [former, latter, Option.map_some, Option.some.injEq] at named
          simp only [named]
          exact onward same _
    · split
      · cases outer with
        | nil =>
          obtain rfl : others = [] := List.eq_nil_of_length_eq_zero same.symm
          simp only [List.isEmpty_map]
          split <;> rfl
        | cons enclosing outer =>
          cases others with
          | nil => cases same
          | cons surrounding others => exact @onward _ _ _ _ (Nat.succ.inj same) 0
      · rw [operation_outline]
        cases operation? item rest with
        | some operation => exact onward same 1
        | none =>
          have members := member_outline item rest
          cases former : member? item.outline (rest.map Item.outline) with
          | none =>
            cases latter : member? item rest with
            | none => rfl
            | some => simp [former, latter] at members
          | some =>
            cases latter : member? item rest with
            | none => simp [former, latter] at members
            | some =>
              simp only [former, latter, Option.map_some, Option.some.injEq] at members
              simp only [members]
              exact onward same _

/-- Of two bracket expressions that differ in what their sets hold, both make sense or none does. -/
theorem is_some_parse {former latter : List Item}
    (same : former.map Item.outline = latter.map Item.outline) (first second : Bool) :
    (parse? first former).isSome = (parse? second latter).isSome := by
  have outlined (caseInsensitive : Bool) (items : List Item) :
      (parse? caseInsensitive items).isSome =
        (parse? false (items.map Item.outline)).isSome := by
    simp only [parse?, open_level_outline, ← List.map_drop]
    exact (is_some_read_outline rfl _).symm
  rw [outlined first, outlined second, same]

end Highlighter.Regex.Bracket

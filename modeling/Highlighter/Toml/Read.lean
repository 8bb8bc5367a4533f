/-!
# Reading from the front of a list

A reader takes items from the front of a list and leaves the rest. What it returns holds
a bound on the length of the rest, so readers can be called again on what they left.
-/

namespace Highlighter.Toml

/-- What was read from the front of a list. -/
structure Read (Item Value : Type) (bound : Nat) where
  value : Value
  /-- The items that were left. -/
  rest : List Item
  shorter : rest.length < bound

/-- What remains behind the longest begin of a list that has a property is not longer. -/
theorem length_dropWhile_le {Item : Type} (property : Item → Bool) (items : List Item) :
    (items.dropWhile property).length ≤ items.length :=
  (List.dropWhile_sublist property).length_le

end Highlighter.Toml

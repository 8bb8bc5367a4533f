import Highlighter.Proofs.Attempt
import Highlighter.Toml.Node.Reading

/-!
# What stands at the top of a document

At the top of a document are the keys in front of its first header, and the first parts of its
headers. The tree of the document has a member for each of them, unless it ends early: at a fault in
the order of the sections, or at a name that comes twice. So a reader of the tree who comes to its
end without a fault has seen every name, and each once.
-/

namespace Highlighter.Toml

namespace Node

variable {own : Bool} {sections : List Placed} {members passed result : List (Key × Node)}
  {fault : Option Problem}

/-- The names of members, in order. -/
def names {Item : Type} (members : List (Key × Item)) : List String :=
  members.map fun member => member.1.name

theorem mem_names_append {Item : Type} {former latter : List (Key × Item)} {name : String} :
    name ∈ names (former ++ latter) ↔ name ∈ names former ∨ name ∈ names latter := by
  rw [names, List.map_append, List.mem_append]
  rfl

theorem names_of_pairs (pairs : List (Key × Value)) : names (ofPairs pairs) = names pairs := by
  induction pairs with
  | nil => rw [ofPairs]; rfl
  | cons pair others induction =>
    obtain ⟨key, value⟩ := pair
    rw [ofPairs]
    exact congrArg (key.name :: ·) induction

/-- The names that a section brings into the table in which it is placed. -/
def Placed.names (placed : Placed) : List String :=
  match placed.remaining with
  | [] => Node.names placed.unit.members
  | key :: _ => [key.name]

/-- A table of sections without a fault has a member for each name that a section brings.

Proof: induction over the number of sections. Sections that share the next part of their headers
bring the same name, and the first of them makes the member. -/
theorem contents_names (whole : contents own sections = (members, none)) :
    ∀ placed ∈ sections, ∀ name ∈ placed.names, name ∈ names members := by
  induction counted : sections.length using Nat.strong_induction_on
    generalizing own sections members with
  | _ count induction =>
  subst counted
  cases sections with
  | nil => exact nofun
  | cons first others =>
    obtain ⟨unit, remaining⟩ := first
    cases remaining with
    | nil =>
      rw [contents] at whole
      split at whole
      · cases whole
      · split at whole
        · cases whole
        · obtain ⟨rfl, clean⟩ := Prod.mk.inj whole
          have later := induction _ (Nat.lt_succ_self _) (Prod.ext rfl clean) rfl
          rw [List.forall_mem_cons]
          constructor
          · intro name brought
            rw [mem_names_append, names_of_pairs]
            exact .inl brought
          · intro placed listed name brought
            rw [mem_names_append]
            exact .inr (later placed listed name brought)
    | cons key keys =>
      rw [contents] at whole
      obtain ⟨rfl, clean⟩ := Prod.mk.inj whole
      have fewer : (outside key.name others).length < (⟨unit, key :: keys⟩ :: others).length :=
        Nat.lt_succ_of_le (List.length_filter_le _ _)
      have later := induction _ fewer (Prod.ext rfl clean) rfl
      rw [List.forall_mem_cons]
      constructor
      · intro name brought
        rw [List.mem_singleton.mp brought]
        exact List.mem_cons_self
      · intro placed listed name brought
        by_cases left : (placed.enter? key.name).isNone
        · exact List.mem_cons_of_mem _
            (later placed (List.mem_filter.mpr ⟨listed, left⟩) name brought)
        · -- A section inside of the same table brings the name of the table.
          obtain ⟨placedUnit, placedKeys⟩ := placed
          cases placedKeys with
          | nil => simp [Placed.enter?] at left
          | cons next behind =>
            have same : next.name = key.name := by
              by_contra other
              simp [Placed.enter?, other] at left
            rw [List.mem_singleton.mp brought, same]
            exact List.mem_cons_self

/-- A table that does not end early holds all of its members, and no two of the same name. -/
theorem close_whole (whole : close fault passed members = (result, none))
    (distinct : (names passed).Nodup) :
    fault = none ∧ result = passed.reverse ++ members ∧ (names result).Nodup := by
  induction members generalizing passed with
  | nil =>
    obtain ⟨rfl, rfl⟩ := Prod.mk.inj whole
    exact ⟨rfl, (List.append_nil _).symm, by simpa [names] using List.nodup_reverse.mpr distinct⟩
  | cons member others induction =>
    obtain ⟨key, node⟩ := member
    rw [close] at whole
    split at whole
    · cases whole
    · rename_i fresh
      have added : (names ((key, node) :: passed)).Nodup := by
        refine List.nodup_cons.mpr ⟨fun known => fresh ?_, distinct⟩
        obtain ⟨earlier, listed, same⟩ := List.mem_map.mp known
        exact List.any_eq_true.mpr ⟨earlier, listed, decide_eq_true same⟩
      obtain ⟨clean, rfl, distinct⟩ := induction whole added
      exact ⟨clean, by simp, distinct⟩

end Node

namespace Document

/-- The names at the top of a document: the keys in front of the first header and the first parts
of the headers. -/
def names (document : Document) : List String :=
  document.sections.flatMap fun unit => Node.Placed.names ⟨unit, unit.header⟩

/-- The tree of a document without a fault has a member for each name, and no two of one name. -/
theorem contents_whole {document : Document} {members : List (Key × Node)}
    (whole : document.contents = (members, none)) :
    (∀ name ∈ document.names, name ∈ Node.names members) ∧ (Node.names members).Nodup := by
  obtain ⟨clean, same, distinct⟩ := Node.close_whole whole List.nodup_nil
  refine ⟨fun name listed => ?_, distinct⟩
  obtain ⟨unit, among, brought⟩ := List.mem_flatMap.mp listed
  rw [same]
  exact Node.contents_names (Prod.ext rfl clean) _ (List.mem_map_of_mem among) name brought

end Document

end Highlighter.Toml

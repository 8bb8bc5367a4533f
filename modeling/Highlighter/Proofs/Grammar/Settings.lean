import Highlighter.Proofs.Grammar.Description
import Highlighter.Proofs.Toml.Contents

/-!
# Misspelt settings

A description has a fixed set of fields, and a table for a category a fixed set of settings. A name
at the top of a description that is no field is refused, whatever else the text holds: the tree of
the text has a member for every name at its top, or it ends at a fault, and a reader who meets
neither has looked at all of them.

In a table for a category it is different. A member that is no setting is gone through, so a fault
in it is found, and is then forgotten. A description is taken exactly as it would be without such
members.
-/

namespace Highlighter

open Toml (Node Problem Key Document)
open Toml.Node (names)

variable {members : List (Key × Node)} {fault : Option Problem} {position : Option Nat}

namespace Pattern

/-- The settings of a table for a category. -/
def settings : List String :=
  ["source", "case_insensitive", "multi_line", "dot_matches_new_line"]

/-- The members that are settings. -/
def declared (members : List (Key × Node)) : List (Key × Node) :=
  members.filter fun member => member.1.name ∈ settings

/-- No member but the settings holds a fault. -/
def StraysSound (members : List (Key × Node)) : Prop :=
  ∀ member ∈ members, member.1.name ∉ settings → member.2.check = .ok ()

/-- A member that is no setting is only gone through. -/
theorem Draft.take_stray {draft next : Draft} {name : String} {node : Node}
    (stray : name ∉ settings) :
    draft.take name node = .ok next ↔ node.check = .ok () ∧ next = draft := by
  have gone : draft.take name node = node.check >>= fun _ => .ok draft := by
    unfold Draft.take
    split
    case h_5 => rfl
    all_goals exact absurd (by decide) stray
  rw [gone, Attempt.bind_eq_ok_iff]
  constructor
  · rintro ⟨_, sound, same⟩
    exact ⟨sound, (Except.ok.inj same).symm⟩
  · rintro ⟨sound, rfl⟩
    exact ⟨(), sound, rfl⟩

theorem declared_cons {member : Key × Node} {others : List (Key × Node)} :
    declared (member :: others) =
      if member.1.name ∈ settings then member :: declared others else declared others := by
  simp only [declared, List.filter_cons, decide_eq_true_eq]

/-- Take up members one after another. A problem of a member is put as it is seen from the table. -/
def Draft.takeAll (fit : Key → Problem → Problem) (members : List (Key × Node)) (draft : Draft) :
    Except Problem Draft :=
  members.foldlM (fun draft (key, node) => (draft.take key.name node).mapError (fit key)) draft

/-- A draft is made of members as it is made of the settings among them, if the others hold no
fault. -/
theorem Draft.take_all_eq_ok_iff {fit : Key → Problem → Problem} {draft final : Draft} :
    takeAll fit members draft = .ok final ↔
      takeAll fit (declared members) draft = .ok final ∧ StraysSound members := by
  have first {key : Key} {node : Node} {others : List (Key × Node)} {draft : Draft} :
      takeAll fit ((key, node) :: others) draft = .ok final ↔
        ∃ next, draft.take key.name node = .ok next ∧ takeAll fit others next = .ok final := by
    rw [takeAll, List.foldlM_cons, Attempt.bind_eq_ok_iff]
    simp only [Attempt.map_error_eq_ok_iff]
    rfl
  induction members generalizing draft with
  | nil => exact (and_iff_left nofun).symm
  | cons member others induction =>
    obtain ⟨key, node⟩ := member
    rw [StraysSound, List.forall_mem_cons, declared_cons, first]
    simp only [induction]
    by_cases known : key.name ∈ settings
    · rw [if_pos known, first]
      constructor
      · rintro ⟨next, taken, onward, sound⟩
        exact ⟨⟨next, taken, onward⟩, fun stray => absurd known stray, sound⟩
      · rintro ⟨⟨next, taken, onward⟩, _, sound⟩
        exact ⟨next, taken, onward, sound⟩
    · rw [if_neg known]
      simp only [take_stray known]
      constructor
      · rintro ⟨_, ⟨checked, rfl⟩, onward, sound⟩
        exact ⟨onward, fun _ => checked, sound⟩
      · rintro ⟨onward, checked, sound⟩
        exact ⟨draft, ⟨checked known, rfl⟩, onward, sound⟩

/-- A table is read as it is read without the members that are no settings, if these hold no
fault. -/
theorem of_members_eq_ok_iff {pattern : Pattern} :
    ofMembers position members fault = .ok pattern ↔
      ofMembers position (declared members) fault = .ok pattern ∧ StraysSound members := by
  constructor
  · intro done
    obtain ⟨draft, taken, made⟩ := Attempt.bind_eq_ok_iff.mp done
    obtain ⟨fewer, sound⟩ := Draft.take_all_eq_ok_iff.mp taken
    exact ⟨Attempt.bind_eq_ok_iff.mpr ⟨draft, fewer, made⟩, sound⟩
  · rintro ⟨done, sound⟩
    obtain ⟨draft, taken, made⟩ := Attempt.bind_eq_ok_iff.mp done
    exact Attempt.bind_eq_ok_iff.mpr ⟨draft, Draft.take_all_eq_ok_iff.mpr ⟨taken, sound⟩, made⟩

/-- The node without the members that are no settings, if it is a table. -/
def declaredNode : Node → Node
  | .table position members fault => .table position (declared members) fault
  | other => other

/-- If the node is a table, no member but the settings holds a fault. -/
def StraysSoundIn : Node → Prop
  | .table _ members _ => StraysSound members
  | _ => True

/-- A node is read as it is read without the members that are no settings, if these hold no
fault. -/
theorem of_node_eq_ok_iff {node : Node} {pattern : Pattern} :
    ofNode node = .ok pattern ↔ ofNode (declaredNode node) = .ok pattern ∧ StraysSoundIn node := by
  cases node with
  | table position members fault => exact of_members_eq_ok_iff
  | text | integer | real | boolean | array => exact (and_iff_left trivial).symm

end Pattern

namespace Description

/-- The fields of a description that hold the table of a category. -/
def tables : List String := ["comments", "numbers", "literals", "classes", "identifiers"]

/-- The members of a description without what is no setting in its tables. -/
def declared (members : List (Key × Node)) : List (Key × Node) :=
  members.map fun member =>
    if member.1.name ∈ tables then (member.1, Pattern.declaredNode member.2) else member

/-- In the tables no member but the settings holds a fault. -/
def StraysSound (members : List (Key × Node)) : Prop :=
  ∀ member ∈ members, member.1.name ∈ tables → Pattern.StraysSoundIn member.2

/-- Of a table a description takes the pattern. -/
theorem take_table (description : Description) {name : String} (listed : name ∈ tables) :
    ∃ put, ∀ node, description.take name node = (Pattern.ofNode node).map put := by
  have gives {put : Pattern → Description} {node : Node} :
      (do return put (← Pattern.ofNode node) : Except Problem Description) =
        (Pattern.ofNode node).map put := by
    cases Pattern.ofNode node <;> rfl
  simp only [tables, List.mem_cons, List.not_mem_nil, or_false] at listed
  rcases listed with rfl | rfl | rfl | rfl | rfl <;> exact ⟨_, fun node => gives⟩

/-- A field is taken up as it is without what is no setting in its table, if that holds no fault. -/
theorem take_eq_ok_iff {description next : Description} {name : String} {node : Node} :
    description.take name node = .ok next ↔
      description.take name (if name ∈ tables then Pattern.declaredNode node else node) = .ok next ∧
        (name ∈ tables → Pattern.StraysSoundIn node) := by
  by_cases listed : name ∈ tables
  · obtain ⟨put, takes⟩ := description.take_table listed
    simp only [listed, takes, Attempt.map_eq_ok_iff, true_implies]
    constructor
    · rintro ⟨pattern, read, made⟩
      obtain ⟨fewer, sound⟩ := Pattern.of_node_eq_ok_iff.mp read
      exact ⟨⟨pattern, fewer, made⟩, sound⟩
    · rintro ⟨⟨pattern, read, made⟩, sound⟩
      exact ⟨pattern, Pattern.of_node_eq_ok_iff.mpr ⟨read, sound⟩, made⟩
  · rw [if_neg listed]
    exact (and_iff_left fun other => absurd other listed).symm

/-- Take up the members of a document one after another. -/
def takeAll (members : List (Key × Node)) (description : Description) :
    Except Problem Description :=
  members.foldlM (fun description (key, node) =>
    if key.name ∈ fields then (take description key.name node).mapError (Problem.under key.name)
    else throw ⟨.unknownField key.name fields, none, []⟩) description

/-- The first member is a field and is taken up, and then the others are. -/
theorem take_all_cons {key : Key} {node : Node} {others : List (Key × Node)}
    {description final : Description} :
    takeAll ((key, node) :: others) description = .ok final ↔ key.name ∈ fields ∧
      ∃ next, description.take key.name node = .ok next ∧ takeAll others next = .ok final := by
  rw [takeAll, List.foldlM_cons, Attempt.bind_eq_ok_iff]
  simp only
  by_cases known : key.name ∈ fields
  · simp only [known, if_true, Attempt.map_error_eq_ok_iff, true_and]
    rfl
  · simp only [known, if_false, false_and, iff_false]
    rintro ⟨next, taken, _⟩
    cases taken

/-- All members that are taken up are fields. -/
theorem fields_of_take_all {description final : Description}
    (done : takeAll members description = .ok final) : ∀ name ∈ names members, name ∈ fields := by
  induction members generalizing description with
  | nil => exact nofun
  | cons member others induction =>
    obtain ⟨known, next, _, onward⟩ := take_all_cons.mp done
    exact List.forall_mem_cons.mpr ⟨known, induction onward⟩

/-- Members are taken up as they are without what is no setting in their tables, if that holds no
fault. -/
theorem take_all_eq_ok_iff {description final : Description} :
    takeAll members description = .ok final ↔
      takeAll (declared members) description = .ok final ∧ StraysSound members := by
  induction members generalizing description with
  | nil => exact (and_iff_left nofun).symm
  | cons member others induction =>
    obtain ⟨key, node⟩ := member
    have front : declared ((key, node) :: others) =
        (key, if key.name ∈ tables then Pattern.declaredNode node else node) :: declared others := by
      rw [declared, List.map_cons]
      split <;> rfl
    rw [front, take_all_cons, take_all_cons, StraysSound, List.forall_mem_cons]
    constructor
    · rintro ⟨known, next, taken, onward⟩
      obtain ⟨fewer, sound⟩ := take_eq_ok_iff.mp taken
      obtain ⟨onward, others⟩ := induction.mp onward
      exact ⟨⟨known, next, fewer, onward⟩, sound, others⟩
    · rintro ⟨⟨known, next, taken, onward⟩, sound, others⟩
      exact ⟨known, next, take_eq_ok_iff.mpr ⟨taken, sound⟩, induction.mpr ⟨onward, others⟩⟩

theorem names_declared (members : List (Key × Node)) :
    names (declared members) = names members := by
  rw [declared, names, List.map_map, names]
  congr 1
  funext member
  simp only [Function.comp_apply]
  split <;> rfl

/-- A description is made of the members of a document that has no fault and a name. -/
theorem of_members_eq_ok_iff {description : Description} :
    ofMembers members fault = .ok description ↔
      takeAll members { name := "" } = .ok description ∧ fault = none ∧ "name" ∈ names members := by
  have named : (members.any fun member => member.1.name = "name") ↔ "name" ∈ names members := by
    simp [names]
  constructor
  · intro done
    obtain ⟨taken, takes, made⟩ := Attempt.bind_eq_ok_iff.mp done
    cases fault with
    | some problem => cases made
    | none =>
      by_cases present : members.any fun member => member.1.name = "name"
      · rw [if_pos present] at made
        cases made
        exact ⟨takes, rfl, named.mp present⟩
      · rw [if_neg present] at made
        cases made
  · rintro ⟨takes, rfl, present⟩
    refine Attempt.bind_eq_ok_iff.mpr ⟨description, takes, ?_⟩
    rw [if_pos (named.mpr present)]
    rfl

/-- The description of a text is made of the tree of its document. -/
theorem read_eq_ok_iff {text : String} {document : Document} {description : Description}
    (reads : Document.read text = .ok document) :
    Description.read text = .ok description ↔
      ofMembers document.contents.1 document.contents.2 = .ok description := by
  rw [Description.read, reads]
  exact Attempt.map_error_eq_ok_iff

end Description

/-- A text with a name at its top that is no field describes no grammar, whatever else it holds. In
the tables of its categories, members that are no settings have to hold no fault, and then the text
describes the grammar that it describes without them. -/
theorem stray_settings {text : String} {document : Document}
    (reads : Document.read text = .ok document) :
    ((∃ name ∈ document.names, name ∉ Description.fields) →
      ∃ details, Grammar.parse text = .error (.invalidDescription details)) ∧
    ∀ grammar log, Grammar.parse text = .ok (grammar, log) ↔
      Description.StraysSound document.contents.1 ∧
        ∃ description, Description.ofMembers (Description.declared document.contents.1)
            document.contents.2 = .ok description ∧
          description.grammar = .ok grammar ∧ description.log grammar = log := by
  constructor
  · rintro ⟨name, listed, stray⟩
    rw [Grammar.parse]
    cases described : Description.read text with
    | error problem => exact ⟨_, rfl⟩
    | ok description =>
      obtain ⟨takes, clean, _⟩ := Description.of_members_eq_ok_iff.mp
        ((Description.read_eq_ok_iff reads).mp described)
      have member := (Document.contents_whole (Prod.ext rfl clean)).1 name listed
      exact absurd (Description.fields_of_take_all takes name member) stray
  · intro grammar log
    have fewer (description : Description) : Description.read text = .ok description ↔
        Description.ofMembers (Description.declared document.contents.1) document.contents.2 =
          .ok description ∧ Description.StraysSound document.contents.1 := by
      rw [Description.read_eq_ok_iff reads, Description.of_members_eq_ok_iff,
        Description.of_members_eq_ok_iff, Description.take_all_eq_ok_iff,
        Description.names_declared]
      exact and_right_comm
    rw [Grammar.parse_eq_ok_iff]
    simp only [fewer]
    constructor
    · rintro ⟨description, ⟨made, sound⟩, rest⟩
      exact ⟨sound, description, made, rest⟩
    · rintro ⟨sound, description, made, rest⟩
      exact ⟨description, ⟨made, sound⟩, rest⟩

/-- A colour is no field, so a description with a colour describes no grammar. -/
theorem colour_refused :
    ∃ document, Document.read "name = \"plain\"\ncolour = \"red\"\n" = .ok document ∧
      "colour" ∈ document.names ∧ "colour" ∉ Description.fields ∧
      ∃ details, Grammar.parse "name = \"plain\"\ncolour = \"red\"\n" =
        .error (.invalidDescription details) := by
  have reads : Document.read "name = \"plain\"\ncolour = \"red\"\n" = .ok ⟨[⟨0, [], false,
      [(⟨"name", 0⟩, .text 7 "plain"), (⟨"colour", 15⟩, .text 24 "red")]⟩]⟩ := by cbv
  have stray : "colour" ∉ Description.fields := by decide
  exact ⟨_, reads, by decide, stray, (stray_settings reads).1 ⟨"colour", by decide, stray⟩⟩

/-- A description whose table of numbers has a colour. -/
def colouredNumbers : String := "name = \"plain\"\n[numbers]\nsource = \"1\"\ncolour = \"red\"\n"

/-- The table of numbers has a member that is no setting, and yet describes a pattern. -/
theorem coloured_numbers_accepted :
    ∃ document key position members, Document.read colouredNumbers = .ok document ∧
      (key, .table position members none) ∈ document.contents.1 ∧ key.name = "numbers" ∧
      "colour" ∈ names members ∧ "colour" ∉ Pattern.settings ∧
      Grammar.parse colouredNumbers =
        .ok ({ name := "plain", extensions := [], numbers := some ⟨"1", {}⟩ },
          [.described "plain" 0]) := by
  have reads : Document.read colouredNumbers = .ok ⟨[⟨0, [], false, [(⟨"name", 0⟩, .text 7 "plain")]⟩,
      ⟨15, [⟨"numbers", 16⟩], false,
        [(⟨"source", 25⟩, .text 34 "1"), (⟨"colour", 38⟩, .text 47 "red")]⟩]⟩ := by cbv
  have holds : Document.contents ⟨[⟨0, [], false, [(⟨"name", 0⟩, .text 7 "plain")]⟩,
      ⟨15, [⟨"numbers", 16⟩], false,
        [(⟨"source", 25⟩, .text 34 "1"), (⟨"colour", 38⟩, .text 47 "red")]⟩]⟩ =
      ([(⟨"name", 0⟩, .text 7 "plain"), (⟨"numbers", 16⟩, .table none
        [(⟨"source", 25⟩, .text 34 "1"), (⟨"colour", 38⟩, .text 47 "red")] none)], none) := by cbv
  have described : Description.read colouredNumbers =
      .ok { name := "plain", numbers := some ⟨"1", {}⟩ } := by
    rw [Description.read_eq_ok_iff reads, holds]
    rfl
  have accepted : Grammar.parse colouredNumbers =
      .ok ({ name := "plain", extensions := [], numbers := some ⟨"1", {}⟩ },
        [.described "plain" 0]) :=
    Grammar.parse_eq_ok_iff.mpr ⟨_, described, by decide, rfl⟩
  refine ⟨_, ⟨"numbers", 16⟩, none,
    [(⟨"source", 25⟩, .text 34 "1"), (⟨"colour", 38⟩, .text 47 "red")], reads, ?_, rfl, ?_, ?_,
    accepted⟩
  · rw [holds]
    exact List.mem_cons_of_mem _ (List.mem_singleton_self _)
  · decide
  · decide

end Highlighter

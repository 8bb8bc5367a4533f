import Highlighter.Proofs.Grammar.Description
import Highlighter.Proofs.Registry.History

/-!
# Every listed grammar is found by its name

Registering compares names exactly, looking them up disregards the case of letters. The two
agree because a description is only accepted if its name is in lower case: then names that
are the same up to case are the same. So in a registry of such grammars no grammar hides
another one, however the registry was reached.
-/

namespace Highlighter

/-- The grammar is known without a description, or some text describes it. -/
def Grammar.Accepted (grammar : Grammar) : Prop :=
  grammar = Grammar.dart ∨ ∃ text log, Grammar.parse text = .ok (grammar, log)

namespace Description

/-- No character of a name is a capital letter. -/
theorem not_upper_of_name_character {character : Char} (named : isNameCharacter character) :
    character.isUpper = false := by
  simp only [isNameCharacter, Bool.or_eq_true, decide_eq_true_eq] at named
  rcases named with (((lower | digit) | rfl) | rfl) | rfl
  · simpa using Char.not_isUpper_of_isLower lower
  · simp only [Char.isDigit, Bool.and_eq_true, decide_eq_true_eq] at digit
    simp only [Char.isUpper, decide_eq_false_iff_not]
    rintro ⟨above, _⟩
    exact absurd (UInt32.le_trans above digit.2) (by decide)
  · decide
  · decide
  · decide

/-- Lower case leaves a valid name as it is. -/
theorem lower_of_valid_name {name : String} (valid : isValidName name) :
    name.toList.map Char.toLower = name.toList := by
  have small : ∀ character ∈ name.toList, character.isUpper = false := by
    unfold isValidName at valid
    split at valid
    · cases valid
    · rename_i first others letters
      obtain ⟨lower, named⟩ := Bool.and_eq_true_iff.mp valid
      rw [letters]
      intro character listed
      rcases List.mem_cons.mp listed with rfl | further
      · simpa using Char.not_isUpper_of_isLower lower
      · exact not_upper_of_name_character (List.all_eq_true.mp named character further)
  calc name.toList.map Char.toLower
      = name.toList.map id :=
        List.map_congr_left fun character listed =>
          Char.toLower_eq_of_not_isUpper (by rw [small character listed]; exact Bool.false_ne_true)
    _ = name.toList := List.map_id _

end Description

/-- Lower case leaves the name of an accepted grammar as it is. -/
theorem Grammar.Accepted.lower {grammar : Grammar} (accepted : grammar.Accepted) :
    grammar.name.toList.map Char.toLower = grammar.name.toList := by
  rcases accepted with rfl | ⟨text, log, parsed⟩
  · decide
  · obtain ⟨description, _, made, _⟩ := Grammar.parse_eq_ok_iff.mp parsed
    obtain ⟨valid, extensions, _, rfl⟩ := Description.grammar_eq_ok_iff.mp made
    exact Description.lower_of_valid_name valid

namespace Registry

/-- Names of accepted grammars that are the same up to the case of letters are the same. -/
theorem name_eq_of_same_letters {left right : Grammar} (first : left.Accepted)
    (second : right.Accepted) (same : sameLetters left.name right.name) :
    left.name = right.name := by
  simp only [sameLetters, decide_eq_true_eq, first.lower, second.lower] at same
  exact String.toList_inj.mp same

/-- No two listed grammars have names that are the same up to the case of letters, and each is
found by its name in any case, whatever the path. -/
structure Reachable (registry : Registry) : Prop where
  distinct : registry.grammars.Pairwise fun left right => ¬ sameLetters left.name right.name
  found : ∀ grammar ∈ registry.grammars, ∀ name, sameLetters grammar.name name →
    registry.named? name = some grammar ∧ ∀ path, registry.choose? (some name) path = some grammar

/-- What is left of a history of accepted grammars can be reached by their names. -/
theorem Recorded.reachable {history : List Grammar} {registry : Registry}
    (recorded : Recorded history registry) (accepted : ∀ grammar ∈ history, grammar.Accepted) :
    Reachable registry := by
  obtain ⟨dated, dates, listed⟩ := recorded.dated
  have known {time : Nat} {grammar : Grammar} (last : LastAt history time grammar) :
      grammar.Accepted := accepted grammar (List.mem_of_getElem? last.registered)
  have member {grammar : Grammar} (inside : grammar ∈ registry.grammars) :
      ∃ time, LastAt history time grammar := by
    rw [listed] at inside
    obtain ⟨⟨time, _⟩, entered, rfl⟩ := List.mem_map.mp inside
    exact ⟨time, (dates.mem_iff _ _).mp entered⟩
  constructor
  · refine List.Pairwise.imp_of_mem ?_ (List.pairwise_map.mp recorded.distinct)
    intro left right first second different same
    obtain ⟨_, former⟩ := member first
    obtain ⟨_, latter⟩ := member second
    exact different (name_eq_of_same_letters (known former) (known latter) same)
  · intro grammar inside name same
    obtain ⟨time, last⟩ := member inside
    have found : registry.named? name = some grammar := by
      refine (recorded.byName name grammar).mpr ⟨time, last, same, fun later other latest also => ?_⟩
      -- What has this name up to case has it exactly, so it was not registered later.
      have alike : sameLetters other.name grammar.name := by
        simp only [sameLetters, decide_eq_true_eq] at same also ⊢
        rw [also, same]
      have equal := name_eq_of_same_letters (known latest) (known last) alike
      by_contra behind
      exact last.last later other (Nat.lt_of_not_ge behind) latest.registered equal
    exact ⟨found, fun path => found⟩

/-- Whatever accepted grammars have been registered, in whatever order and however often, every
grammar that is listed can be reached by its name. -/
theorem listed_reachable_by_name (calls : List Grammar)
    (accepted : ∀ grammar ∈ calls, grammar.Accepted) :
    Reachable (empty.registerAll calls) ∧ Reachable (standard.registerAll calls) := by
  have known : ∀ grammar ∈ Grammar.dart :: calls, grammar.Accepted := by
    intro grammar listed
    rcases List.mem_cons.mp listed with rfl | further
    · exact .inl rfl
    · exact accepted grammar further
  exact ⟨(recorded_from_empty calls).reachable accepted,
    (recorded_from_empty (Grammar.dart :: calls)).reachable known⟩

/-- A grammar without patterns. -/
def plainGrammar : Grammar := { name := "plain", extensions := ["txt"] }

/-- The known grammar and a described one, which is registered before and behind it. -/
theorem described_and_known_reachable :
    (∀ grammar ∈ [plainGrammar, Grammar.dart, plainGrammar], grammar.Accepted) ∧
      Reachable (empty.registerAll [plainGrammar, Grammar.dart, plainGrammar]) ∧
      Reachable (standard.registerAll [plainGrammar, Grammar.dart, plainGrammar]) := by
  have described : Grammar.parse "name = \"plain\"\nextensions = [\".txt\"]" =
      .ok (plainGrammar, [.described "plain" 0, .describedNothing "plain"]) := by cbv
  have accepted : ∀ grammar ∈ [plainGrammar, Grammar.dart, plainGrammar], grammar.Accepted := by
    have plain : plainGrammar.Accepted := .inr ⟨_, _, described⟩
    simp only [List.mem_cons, List.not_mem_nil, or_false]
    rintro grammar (rfl | rfl | rfl)
    · exact plain
    · exact .inl rfl
    · exact plain
  exact ⟨accepted, listed_reachable_by_name _ accepted⟩

end Registry

end Highlighter

import Highlighter.Proofs.Grammar.Settings

/-!
# Which descriptions are accepted

A text is judged in three steps, and the first that fails gives the error: the text has to be a
description, its name has to be one for a language, and each of its extensions has to be one for
files. The first extension that is none counts, whatever stands behind it.

The judgement is stated by the characters of names and extensions and does not refer to how they are
looked at. What an accepted description makes is stated by its fields, and these by the members of
the document.
-/

namespace Highlighter

open Toml (Node Problem Key Document)
open Toml.Node (names)

/-- A lower-case letter of ASCII, a digit of ASCII or one of the signs of names. -/
def IsNameSign (character : Char) : Prop :=
  ('a' ≤ character ∧ character ≤ 'z') ∨ ('0' ≤ character ∧ character ≤ '9') ∨
    character = '_' ∨ character = '+' ∨ character = '-'

/-- A lower-case letter, with letters, digits and signs behind it and nothing else. -/
def NamesLanguage (name : String) : Prop :=
  ∃ first others, name.toList = first :: others ∧ ('a' ≤ first ∧ first ≤ 'z') ∧
    ∀ character ∈ others, IsNameSign character

/-- Letters of either case, digits and signs: at least one, and nothing else. -/
def NamesFiles (extension : String) : Prop :=
  extension.toList ≠ [] ∧
    ∀ character ∈ extension.toList, IsNameSign character ∨ ('A' ≤ character ∧ character ≤ 'Z')

/-- The latter text is the former without all of the periods at its begin. -/
def Undotted (written bare : String) : Prop :=
  (∃ count, written.toList = List.replicate count '.' ++ bare.toList) ∧
    bare.toList.head? ≠ some '.'

theorem undotted_iff {written bare : String} :
    Undotted written bare ↔ bare = withoutDots written := by
  constructor
  · rintro ⟨⟨count, split⟩, stops⟩
    rw [withoutDots, split, List.dropWhile_append_of_pos (by simp)]
    cases characters : bare.toList with
    | nil => rw [← String.ofList_toList (s := bare), characters]; rfl
    | cons first others =>
      have other : first ≠ '.' := by simpa [characters] using stops
      rw [List.dropWhile_cons_of_neg (by simpa using other), ← characters, String.ofList_toList]
  · rintro rfl
    rw [Undotted, withoutDots, String.toList_ofList]
    constructor
    · refine ⟨(written.toList.takeWhile (· = '.')).length, ?_⟩
      have dots : written.toList.takeWhile (· = '.') =
          List.replicate (written.toList.takeWhile (· = '.')).length '.' :=
        List.eq_replicate_of_mem fun character passed => by simpa using List.mem_takeWhile_imp passed
      rw [← dots, List.takeWhile_append_dropWhile]
    · intro dotted
      have stops := List.head?_dropWhile_not (· = '.') written.toList
      rw [dotted] at stops
      simp at stops

namespace Description

theorem is_name_character_iff {character : Char} :
    isNameCharacter character ↔ IsNameSign character := by
  simp [isNameCharacter, IsNameSign, Char.isLower, Char.isDigit, Char.le_def, or_assoc]

theorem is_valid_name_iff {name : String} : isValidName name ↔ NamesLanguage name := by
  rw [isValidName, NamesLanguage]
  cases name.toList with
  | nil => simp
  | cons first others =>
    simp [is_name_character_iff, Char.isLower, Char.le_def]

theorem is_valid_extension_iff {extension : String} :
    isValidExtension extension ↔ NamesFiles extension := by
  simp [isValidExtension, NamesFiles, is_name_character_iff, Char.isUpper, Char.le_def]

/-- The first extension that names no files gives the error. -/
theorem trimmed_eq_error {before after : List String} {bad : String}
    (earlier : ∀ extension ∈ before, isValidExtension (withoutDots extension))
    (wrong : ¬ isValidExtension (withoutDots bad)) :
    trimmed (before ++ bad :: after) = .error (.invalidExtension (withoutDots bad)) := by
  induction before with
  | nil => rw [List.nil_append, trimmed, if_neg wrong]
  | cons extension others induction =>
    obtain ⟨valid, later⟩ := List.forall_mem_cons.mp earlier
    rw [List.cons_append, trimmed, if_pos valid, induction later]
    rfl

/-- What a field of a description holds. -/
inductive Held where
  | text (text : String)
  | texts (texts : List String)
  | pattern (pattern : Option Pattern)

/-- What the description holds in a field. -/
def held (description : Description) (name : String) : Held :=
  match name with
  | "name" => .text description.name
  | "extensions" => .texts description.extensions
  | "keywords" => .texts description.keywords
  | "comments" => .pattern description.comments
  | "numbers" => .pattern description.numbers
  | "literals" => .pattern description.literals
  | "classes" => .pattern description.classes
  | "identifiers" => .pattern description.identifiers
  | _ => .pattern none

/-- What a node tells for a field. -/
def told (name : String) (node : Node) : Except Problem Held :=
  match name with
  | "name" => node.toText.map .text
  | "extensions" | "keywords" => node.toTexts.map .texts
  | _ => (Pattern.ofNode node).map fun pattern => .pattern (some pattern)

/-- The description holds what the members tell, and of what they do not name it holds nothing. -/
structure Tells (members : List (Key × Node)) (description : Description) : Prop where
  named : ∀ member ∈ members, told member.1.name member.2 = .ok (description.held member.1.name)
  others : ∀ name, name ∉ names members → description.held name = held { name := "" } name

/-- A member tells what its field holds, and leaves the other fields as they are. -/
theorem held_of_take {description next : Description} {name : String} {node : Node}
    (known : name ∈ fields) (taken : description.take name node = .ok next) :
    told name node = .ok (next.held name) ∧
      ∀ other, other ≠ name → next.held other = description.held other := by
  simp only [fields, List.mem_cons, List.not_mem_nil, or_false] at known
  rcases known with rfl | rfl | rfl | rfl | rfl | rfl | rfl | rfl
  all_goals
    obtain ⟨value, read, made⟩ := Attempt.bind_eq_ok_iff.mp taken
    obtain rfl := Except.ok.inj made
    refine ⟨Attempt.map_eq_ok_iff.mpr ⟨value, read, rfl⟩, fun other different => ?_⟩
    unfold held
    split <;> first | rfl | exact absurd rfl different

/-- Members of different names are all held behind the last one.

Proof: induction over the members. What the first one tells is kept, since no other has its name. -/
theorem held_of_take_all {members : List (Key × Node)} {description final : Description}
    (taken : takeAll members description = .ok final) (distinct : (names members).Nodup) :
    (∀ member ∈ members, told member.1.name member.2 = .ok (final.held member.1.name)) ∧
      ∀ name, name ∉ names members → final.held name = description.held name := by
  induction members generalizing description with
  | nil =>
    obtain rfl := Except.ok.inj taken
    exact ⟨nofun, fun _ _ => rfl⟩
  | cons member members induction =>
    obtain ⟨key, node⟩ := member
    obtain ⟨known, next, first, onward⟩ := take_all_cons.mp taken
    obtain ⟨fresh, distinct⟩ := List.nodup_cons.mp distinct
    obtain ⟨later, kept⟩ := induction onward distinct
    obtain ⟨tells, others⟩ := held_of_take known first
    constructor
    · refine List.forall_mem_cons.mpr ⟨?_, later⟩
      rw [tells, kept key.name fresh]
    · intro name absent
      obtain ⟨different, absent⟩ := not_or.mp (List.mem_cons.not.mp absent)
      rw [kept name absent, others name different]

/-- A description that is read holds what the members of the document tell, and nothing else. -/
theorem tells_of_read {text : String} {description : Description}
    (described : Description.read text = .ok description) :
    ∃ document, Document.read text = .ok document ∧ description.Tells document.contents.1 := by
  obtain ⟨document, reads, -⟩ := Attempt.bind_eq_ok_iff.mp described
  obtain ⟨taken, clean, -⟩ := of_members_eq_ok_iff.mp ((read_eq_ok_iff reads).mp described)
  obtain ⟨-, distinct⟩ := Document.contents_whole (Prod.ext rfl clean)
  obtain ⟨named, others⟩ := held_of_take_all taken distinct
  exact ⟨document, reads, named, others⟩

/-- The grammar has the name, the undotted extensions, the keywords and the patterns of the
description, and functions if and only if identifiers are described. -/
structure Makes (description : Description) (grammar : Grammar) : Prop where
  name : grammar.name = description.name
  extensions : List.Forall₂ Undotted description.extensions grammar.extensions
  keywords : grammar.keywords =
    if description.keywords = [] then none else some (Pattern.keywords description.keywords)
  comments : grammar.comments = description.comments
  numbers : grammar.numbers = description.numbers
  literals : grammar.literals = description.literals
  classes : grammar.classes = description.classes
  identifiers : grammar.identifiers = description.identifiers
  functions : grammar.functions.isSome ↔ description.identifiers.isSome

/-- What is to come of a description. -/
structure Judged (description : Description)
    (outcome : Except GrammarError (Grammar × List Message)) : Prop where
  accepted : (∃ grammar log, outcome = .ok (grammar, log)) ↔ NamesLanguage description.name ∧
    ∀ written ∈ description.extensions, ∀ bare, Undotted written bare → NamesFiles bare
  misnamed : ¬ NamesLanguage description.name → outcome = .error (.invalidName description.name)
  misfiled : NamesLanguage description.name → ∀ before bad after bare,
    description.extensions = before ++ bad :: after →
    (∀ written ∈ before, ∀ bare, Undotted written bare → NamesFiles bare) →
    Undotted bad bare → ¬ NamesFiles bare → outcome = .error (.invalidExtension bare)
  made : ∀ grammar log, outcome = .ok (grammar, log) → description.Makes grammar

/-- A grammar has what the description says of which it is made. -/
theorem makes_of_grammar {description : Description} {grammar : Grammar}
    (made : description.grammar = .ok grammar) : description.Makes grammar := by
  obtain ⟨_, extensions, kept, rfl⟩ := grammar_eq_ok_iff.mp made
  obtain ⟨rfl, -⟩ := trimmed_eq_ok_iff.mp kept
  exact {
    name := rfl
    extensions := List.forall₂_map_right_iff.mpr (List.forall₂_same.mpr fun _ _ =>
      undotted_iff.mpr rfl)
    keywords := by simp only [List.isEmpty_iff]
    comments := rfl
    numbers := rfl
    literals := rfl
    classes := rfl
    identifiers := rfl
    functions := by rw [Grammar.functions, Option.isSome_map] }

/-- Extensions name files without their periods as they are valid without them. -/
theorem valid_extensions_iff {extensions : List String} :
    (∀ extension ∈ extensions, isValidExtension (withoutDots extension)) ↔
      ∀ written ∈ extensions, ∀ bare, Undotted written bare → NamesFiles bare := by
  simp only [is_valid_extension_iff, undotted_iff, forall_eq]

/-- What comes of a description is what is to come of it. -/
theorem judged_grammar (description : Description) :
    description.Judged
      (description.grammar.map fun grammar => (grammar, description.log grammar)) where
  accepted := by
    simp only [← valid_extensions_iff, ← is_valid_name_iff, Attempt.map_eq_ok_iff,
      grammar_eq_ok_iff, trimmed_eq_ok_iff]
    constructor
    · rintro ⟨_, _, _, ⟨valid, _, ⟨_, all⟩, _⟩, _⟩
      exact ⟨valid, all⟩
    · rintro ⟨valid, all⟩
      exact ⟨_, _, _, ⟨valid, _, ⟨rfl, all⟩, rfl⟩, rfl⟩
  misnamed := by
    intro wrong
    rw [← is_valid_name_iff, Bool.not_eq_true] at wrong
    rw [Description.grammar, wrong]
    rfl
  misfiled := by
    intro named before bad after bare listed earlier same wrong
    rw [undotted_iff] at same
    subst same
    rw [← is_valid_extension_iff] at wrong
    rw [Description.grammar, is_valid_name_iff.mpr named, listed,
      trimmed_eq_error (valid_extensions_iff.mpr earlier) wrong]
    rfl
  made := by
    intro grammar log done
    obtain ⟨_, made, same⟩ := Attempt.map_eq_ok_iff.mp done
    obtain ⟨rfl, -⟩ := Prod.mk.inj same
    exact makes_of_grammar made

end Description

/-- A text that is no description gives a grammar error that says so. Of a description, which holds
what the members of its document tell, the name is judged first, then each extension in the order
of the list; if all are right, the grammar is made of them. -/
theorem Grammar.parse_outcome (text : String) :
    (∀ problem, Description.read text = .error problem →
      Grammar.parse text = .error (.invalidDescription (problem.message text))) ∧
    ∀ description, Description.read text = .ok description →
      (∃ document, Document.read text = .ok document ∧ description.Tells document.contents.1) ∧
        description.Judged (Grammar.parse text) := by
  constructor
  · intro problem refused
    rw [Grammar.parse, refused]
  · intro description described
    refine ⟨Description.tells_of_read described, ?_⟩
    rw [Grammar.parse, described]
    exact description.judged_grammar

/-- Of two bad extensions the first one counts, and all of its periods are gone. -/
theorem Grammar.first_bad_extension :
    Grammar.parse "name = \"c++\"\nextensions = [\".h\", \"..\", \"h h\"]\n" =
      .error (.invalidExtension "") := by
  have described : Description.read "name = \"c++\"\nextensions = [\".h\", \"..\", \"h h\"]\n" =
      .ok { name := "c++", extensions := [".h", "..", "h h"] } := by cbv
  have judged := ((Grammar.parse_outcome _).2 _ described).2
  refine judged.misfiled (Description.is_valid_name_iff.mp (by decide)) [".h"] ".." ["h h"] "" rfl
    (Description.valid_extensions_iff.mp (by decide)) ⟨⟨2, rfl⟩, by decide⟩ ?_
  exact fun files => files.1 rfl

end Highlighter

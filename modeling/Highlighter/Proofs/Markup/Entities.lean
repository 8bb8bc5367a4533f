import Highlighter.Markup
import Mathlib

/-!
# Entities stand for characters

Escaping writes some characters as entities. Reading the entities from left to right gives the text
back: every entity begins with an ampersand, and an escaped text holds no other ampersands. Escaped
text holds none of the characters that are written as entities, so it can stand between them.

The other way round, a text in which every ampersand begins an entity, and which holds none of the
other characters, is what is written for what it reads as. So these are exactly the escaped texts.

All of this is shown for any table of entities that is a `Coding`, with an entity for the ampersand
itself and with no entity that begins another one.
-/

namespace Highlighter.Entity

/-- The entities that are written in the text of a page, with what they stand for. -/
def textEntities : List (List Char × Char) :=
  [("&amp;".toList, '&'), ("&lt;".toList, '<'), ("&gt;".toList, '>')]

/-- The entities that are written where attributes may hold them, with what they stand for. -/
def attributeEntities : List (List Char × Char) :=
  [("&amp;".toList, '&'), ("&lt;".toList, '<'), ("&gt;".toList, '>'), ("&quot;".toList, '"'),
   ("&#39;".toList, '\'')]

/-- A text with the given entities read as what they stand for, from left to right. What begins no
entity stands for itself. -/
def decode (entities : List (List Char × Char)) : List Char → List Char
  | [] => []
  | character :: rest =>
    match entities.find? fun entity => entity.1.isPrefixOf (character :: rest) with
    | some (name, meant) => meant :: decode entities (rest.drop (name.length - 1))
    | none => character :: decode entities rest
termination_by text => text.length
decreasing_by
  all_goals simp only [List.length_drop, List.length_cons]; omega

/-- Characters are written by a table of entities. -/
structure Coding (entities : List (List Char × Char)) (write : Char → List Char) : Prop where
  /-- What has an entity is written as it. -/
  named : ∀ entity ∈ entities, write entity.2 = entity.1
  /-- Everything else is written as itself. -/
  plain : ∀ character, character ∉ entities.map Prod.snd → write character = [character]
  /-- An ampersand begins every entity. -/
  begins : ∀ entity ∈ entities, entity.1 = '&' :: entity.1.tail
  /-- The ampersand has an entity. -/
  ampersand : ∃ entity ∈ entities, entity.2 = '&'
  /-- Nothing that has an entity is in the rest of one. -/
  clean : ∀ entity ∈ entities, ∀ other ∈ entities, other.2 ∉ entity.1.tail
  /-- No entity begins with another one. -/
  apart : ∀ entity ∈ entities, ∀ other ∈ entities, other.1 <+: entity.1 → other = entity

/-- The text may have been written: every ampersand begins an entity, and nothing else that has an
entity is there. -/
structure Encoded (entities : List (List Char × Char)) (text : List Char) : Prop where
  clean : ∀ entity ∈ entities, entity.2 ≠ '&' → entity.2 ∉ text
  begins : ∀ rest, '&' :: rest <:+ text → ∃ entity ∈ entities, entity.1 <+: '&' :: rest

variable {entities : List (List Char × Char)} {write : Char → List Char}

/-- What is behind a part of a text that may have been written may have been written too. -/
theorem Encoded.of_suffix {text rest : List Char} (encoded : Encoded entities text)
    (ends : rest <:+ text) : Encoded entities rest :=
  ⟨fun entity listed other within => encoded.clean entity listed other (ends.mem within),
    fun others behind => encoded.begins others (behind.trans ends)⟩

namespace Coding

variable (coding : Coding entities write)
include coding

/-- A character is written as its entity, or as itself if it has none. -/
theorem written_as (character : Char) :
    (∃ entity ∈ entities, entity.2 = character ∧ write character = entity.1) ∨
      character ∉ entities.map Prod.snd ∧ write character = [character] := by
  by_cases entity : character ∈ entities.map Prod.snd
  · obtain ⟨named, listed, rfl⟩ := List.mem_map.mp entity
    exact .inl ⟨named, listed, rfl, coding.named named listed⟩
  · exact .inr ⟨entity, coding.plain character entity⟩

/-- What an entity stands for is read where it is written, and nothing else begins like it. -/
theorem find_entity {entity : List Char × Char} (listed : entity ∈ entities) (rest : List Char) :
    entities.find? (fun other => other.1.isPrefixOf (entity.1 ++ rest)) = some entity := by
  have some_begins :
      (entities.find? fun other => other.1.isPrefixOf (entity.1 ++ rest)).isSome :=
    List.find?_isSome.mpr ⟨entity, listed, List.isPrefixOf_iff_prefix.mpr (List.prefix_append _ _)⟩
  obtain ⟨other, found⟩ := Option.isSome_iff_exists.mp some_begins
  have known := List.mem_of_find?_eq_some found
  have begins : other.1.isPrefixOf (entity.1 ++ rest) := by simpa only using List.find?_some found
  rw [List.isPrefixOf_iff_prefix] at begins
  rw [found]
  rcases List.prefix_or_prefix_of_prefix begins (List.prefix_append entity.1 rest)
    with former | latter
  · rw [coding.apart entity listed other known former]
  · rw [coding.apart other known entity listed latter]

/-- No entity begins with another character than the ampersand. -/
theorem find_plain {character : Char} (different : character ≠ '&') (rest : List Char) :
    entities.find? (fun entity => entity.1.isPrefixOf (character :: rest)) = none := by
  refine List.find?_eq_none.mpr fun entity listed begins => ?_
  rw [List.isPrefixOf_iff_prefix, coding.begins entity listed, List.cons_prefix_cons] at begins
  exact different begins.1.symm

/-- A written character is read as itself, whatever comes behind it. -/
theorem decode_written (character : Char) (rest : List Char) :
    decode entities (write character ++ rest) = character :: decode entities rest := by
  rcases coding.written_as character with ⟨entity, listed, rfl, written⟩ | ⟨absent, written⟩
  · have found := coding.find_entity listed rest
    rw [written]
    rw [coding.begins entity listed, List.cons_append] at found ⊢
    rw [decode, found]
    have behind : (entity.1.tail ++ rest).drop (entity.1.length - 1) = rest := by
      rw [← List.length_tail, List.drop_left]
    simp only [behind]
  · have different : character ≠ '&' := by
      rintro rfl
      exact absent (List.mem_map.mpr coding.ampersand)
    rw [written, List.singleton_append, decode, coding.find_plain different]

/-- Reading the entities of a written text gives the text back. -/
theorem decode_flat_map (text : List Char) : decode entities (text.flatMap write) = text := by
  induction text with
  | nil => rw [List.flatMap_nil, decode]
  | cons character others induction =>
    rw [List.flatMap_cons, coding.decode_written, induction]

/-- Nothing is written shorter than it is. -/
theorem length_le (text : List Char) : text.length ≤ (text.flatMap write).length := by
  have filled (character : Char) : 0 < (write character).length := by
    rcases coding.written_as character with ⟨entity, listed, _, written⟩ | ⟨_, written⟩
    · rw [written, coding.begins entity listed]
      exact Nat.succ_pos _
    · rw [written]
      exact Nat.one_pos
  induction text with
  | nil => exact Nat.zero_le _
  | cons character others induction =>
    have first := filled character
    rw [List.flatMap_cons, List.length_append, List.length_cons]
    omega

/-- A sign that has an entity is not written itself, unless it is the ampersand. -/
theorem not_mem_flat_map {sign : List Char × Char} (signed : sign ∈ entities)
    (other : sign.2 ≠ '&') (text : List Char) : sign.2 ∉ text.flatMap write := by
  intro listed
  obtain ⟨character, _, within⟩ := List.mem_flatMap.mp listed
  rcases coding.written_as character with ⟨entity, named, rfl, written⟩ | ⟨absent, written⟩
  · rw [written, coding.begins entity named, List.mem_cons] at within
    exact within.elim other (coding.clean entity named sign signed)
  · rw [written, List.mem_singleton] at within
    exact absent (List.mem_map.mpr ⟨sign, signed, within⟩)

/-- An ampersand in what is written for a character is the first character of its entity. -/
theorem begins_of_written {character : Char} {former latter : List Char}
    (written : write character = former ++ '&' :: latter) (rest : List Char) :
    ∃ entity ∈ entities, entity.1 <+: '&' :: (latter ++ rest) := by
  rcases coding.written_as character with ⟨entity, listed, _, spelled⟩ | ⟨absent, spelled⟩
  · rw [spelled, coding.begins entity listed] at written
    -- Only the first character of an entity is an ampersand.
    cases former with
    | nil =>
      refine ⟨entity, listed, ?_⟩
      rw [coding.begins entity listed, written]
      exact List.prefix_append ('&' :: latter) rest
    | cons first others =>
      have within : '&' ∈ entity.1.tail := by simp [(List.cons.inj written).2]
      obtain ⟨sign, signed, ampersand⟩ := coding.ampersand
      exact absurd (ampersand ▸ within) (coding.clean entity listed sign signed)
  · rw [spelled, List.singleton_eq_append_iff] at written
    obtain ⟨_, single⟩ | ⟨_, empty⟩ := written
    · rw [← (List.cons.inj single).1] at absent
      exact absurd (List.mem_map.mpr coding.ampersand) absent
    · cases empty

/-- An ampersand in a written text is the first character of an entity.

Proof: it is in what is written for a character, and there it is in front. -/
theorem encoded_flat_map (text : List Char) : Encoded entities (text.flatMap write) := by
  refine ⟨fun entity signed other => coding.not_mem_flat_map signed other text, ?_⟩
  induction text with
  | nil =>
    intro rest behind
    cases List.suffix_nil.mp behind
  | cons character others induction =>
    rintro rest ⟨former, split⟩
    rw [List.flatMap_cons] at split
    rcases List.append_eq_append_iff.mp split with ⟨inside, written, remains⟩ | ⟨middle, _, later⟩
    · cases inside with
      | nil => exact induction rest ⟨[], remains⟩
      | cons sign latter =>
        obtain ⟨rfl, rfl⟩ := List.cons.inj remains
        exact coding.begins_of_written written _
    · exact induction rest ⟨middle, later.symm⟩

/-- A text that may have been written is written for what it reads as.

Proof: induction along the reading. Each step takes an entity, or a character that has none. -/
theorem flat_map_decode {text : List Char} (encoded : Encoded entities text) :
    (decode entities text).flatMap write = text := by
  fun_induction decode entities text with
  | case1 => rfl
  | case2 character rest name meant found induction =>
    have listed := List.mem_of_find?_eq_some found
    have spelled : name = '&' :: name.tail := coding.begins _ listed
    have begins : name.isPrefixOf (character :: rest) := by simpa only using List.find?_some found
    obtain ⟨behind, split⟩ := List.isPrefixOf_iff_prefix.mp begins
    have remains : rest.drop (name.length - 1) = behind := by
      rw [spelled, List.cons_append] at split
      rw [← (List.cons.inj split).2, ← List.length_tail, List.drop_left]
    have ends : rest.drop (name.length - 1) <:+ character :: rest :=
      (List.drop_suffix _ rest).trans (List.suffix_cons character rest)
    rw [List.flatMap_cons, induction (encoded.of_suffix ends), coding.named _ listed, remains,
      split]
  | case3 character rest missing induction =>
    -- An ampersand begins an entity, and that would have been found.
    have absent : character ∉ entities.map Prod.snd := by
      intro signed
      by_cases ampersand : character = '&'
      · subst ampersand
        obtain ⟨entity, listed, begins⟩ := encoded.begins rest List.suffix_rfl
        exact List.find?_eq_none.mp missing entity listed (List.isPrefixOf_iff_prefix.mpr begins)
      · obtain ⟨entity, listed, rfl⟩ := List.mem_map.mp signed
        exact encoded.clean entity listed ampersand List.mem_cons_self
    rw [List.flatMap_cons, coding.plain character absent, List.singleton_append,
      induction (encoded.of_suffix (List.suffix_cons character rest))]

end Coding

/-- The text of a page is written by its table. -/
theorem text_coding : Coding textEntities ofTextCharacter where
  named := by decide
  plain := by
    intro character absent
    unfold ofTextCharacter
    split
    · exact absurd (by decide) absent
    · exact absurd (by decide) absent
    · exact absurd (by decide) absent
    · rfl
  begins := by decide
  ampersand := by decide
  clean := by decide
  apart := by decide

/-- What is written where attributes may hold it is written by its table. -/
theorem attribute_coding : Coding attributeEntities ofAttributeCharacter where
  named := by decide
  plain := by
    intro character absent
    unfold ofAttributeCharacter
    split
    · exact absurd (by decide) absent
    · exact absurd (by decide) absent
    · refine text_coding.plain character fun listed => absent ?_
      have more : textEntities ⊆ attributeEntities := by decide
      exact List.map_subset Prod.snd more listed
  begins := by decide
  ampersand := by decide
  clean := by decide
  apart := by decide +kernel

/-- Reading the entities of a written text gives the text back. -/
theorem decode_escape_attribute (text : List Char) :
    decode attributeEntities (escapeAttribute text) = text :=
  attribute_coding.decode_flat_map text

/-- A sign that has an entity is not written itself, unless it is the ampersand. -/
theorem not_mem_escape_attribute {sign : Char} (signed : sign ∈ ['<', '>', '"', '\''])
    (text : List Char) : sign ∉ escapeAttribute text := by
  have known : ∃ entity ∈ attributeEntities, entity.2 = sign ∧ entity.2 ≠ '&' := by
    simp only [List.mem_cons, List.not_mem_nil, or_false] at signed
    rcases signed with rfl | rfl | rfl | rfl <;> decide
  obtain ⟨entity, listed, rfl, other⟩ := known
  exact attribute_coding.not_mem_flat_map listed other text

end Highlighter.Entity

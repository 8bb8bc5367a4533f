import Highlighter.Proofs.Markup.Entities

/-!
# Escaped text

Escaping for a page loses nothing. What is written reads as the text, so no two texts are written
alike, and a text that holds entities itself is no exception: its ampersands are escaped as well.
Texts that a page can hold are those without angle brackets in which ampersands begin entities.
Each of them is what is written for some text, namely for the one that it reads as.

A plain text is returned as it is, without a look at its characters one by one. That is no more than
a shortcut: the texts that it is taken for are those that escaping leaves alone.
-/

namespace Highlighter.Entity

/-- A page can hold the text: there are no angle brackets, and each ampersand begins an entity. -/
structure IsEscaped (text : List Char) : Prop where
  less : '<' ∉ text
  greater : '>' ∉ text
  ampersands : ∀ rest, '&' :: rest <:+ text →
    "&amp;".toList <+: '&' :: rest ∨ "&lt;".toList <+: '&' :: rest ∨ "&gt;".toList <+: '&' :: rest

/-- The table of the text of a page says so of a written text. -/
theorem encoded_iff {text : List Char} : Encoded textEntities text ↔ IsEscaped text := by
  constructor
  · rintro ⟨clean, begins⟩
    refine ⟨clean ("&lt;".toList, '<') (by decide) (by decide),
      clean ("&gt;".toList, '>') (by decide) (by decide), fun rest behind => ?_⟩
    simpa [textEntities] using begins rest behind
  · rintro ⟨less, greater, ampersands⟩
    refine ⟨by simp [textEntities, less, greater], fun rest behind => ?_⟩
    simpa [textEntities] using ampersands rest behind

/-- A character is written as the source of a page shows it. -/
theorem of_text_character_eq (character : Char) : ofTextCharacter character =
    if character = '&' then "&amp;".toList else if character = '<' then "&lt;".toList
    else if character = '>' then "&gt;".toList else [character] := by
  unfold ofTextCharacter
  split <;> simp_all

/-- A character has an entity if it is special. -/
theorem mem_text_entities_iff {character : Char} :
    character ∈ textEntities.map Prod.snd ↔ isSpecial character := by
  simp [textEntities, isSpecial, or_assoc]

/-- Escaping leaves those texts alone that hold no special character.

Proof: an entity is longer than what it stands for, and nothing is written as less than itself. -/
theorem escape_eq_self_iff {text : List Char} :
    escape text = text ↔ ∀ character ∈ text, ¬ isSpecial character := by
  constructor
  · intro same character listed special
    obtain ⟨former, latter, rfl⟩ := List.append_of_mem listed
    have longer : ∀ entity ∈ textEntities, 1 < (ofTextCharacter entity.2).length := by decide
    obtain ⟨entity, named, rfl⟩ := List.mem_map.mp (mem_text_entities_iff.mpr special)
    have first := text_coding.length_le former
    have second := longer entity named
    have third := text_coding.length_le latter
    have total := congrArg List.length same
    simp only [escape, List.flatMap_append, List.flatMap_cons, List.length_append,
      List.length_cons] at total
    omega
  · intro plain
    have single : ∀ character ∈ text, ofTextCharacter character = [character] :=
      fun character listed => text_coding.plain character fun signed =>
        plain character listed (mem_text_entities_iff.mp signed)
    rw [escape, List.flatMap_congr single, List.flatMap_singleton']

/-- A text is plain if escaping leaves it alone. -/
theorem is_plain_iff {text : String} : isPlain text ↔ escape text.toList = text.toList := by
  rw [escape_eq_self_iff, isPlain, Bool.not_eq_true', List.any_eq_false]

/-- The shortcut for plain texts makes no difference. -/
theorem to_list_escape_text (text : String) : (escapeText text).toList = escape text.toList := by
  rw [escapeText]
  split
  · exact (is_plain_iff.mp ‹_›).symm
  · exact String.toList_ofList

/-- A page holds what is written for a text if their characters are written so. -/
theorem escape_text_eq_iff {text page : String} :
    escapeText text = page ↔ escape text.toList = page.toList := by
  rw [← String.toList_inj, to_list_escape_text]

/-- What is written for a text can be held by a page, -/
theorem is_escaped_escape_text (text : String) : IsEscaped (escapeText text).toList := by
  rw [to_list_escape_text]
  exact encoded_iff.mp (text_coding.encoded_flat_map text.toList)

/-- and what a page can hold is written for what it reads as. -/
theorem escape_text_decode {page : String} (escaped : IsEscaped page.toList) :
    escapeText (String.ofList (decode textEntities page.toList)) = page := by
  rw [escape_text_eq_iff, String.toList_ofList]
  exact text_coding.flat_map_decode (encoded_iff.mpr escaped)

example : decode textEntities "&amp;lt;".toList = "&lt;".toList := by cbv

/-- Escaping for a page is faithful. It replaces the three characters one by one, and the shortcut
is taken for the texts that it leaves alone. What is written reads as the text, and so two texts are
not written alike. What is written for some text is exactly what a page can hold, and that is written
for what it reads as. Parts of a text are escaped by themselves. -/
theorem escape_text_faithful :
    (∀ text : String, (escapeText text).toList = text.toList.flatMap fun character =>
      if character = '&' then "&amp;".toList else if character = '<' then "&lt;".toList
      else if character = '>' then "&gt;".toList else [character]) ∧
    (∀ text, isPlain text ↔ escapeText text = text) ∧
    (∀ text, decode textEntities (escapeText text).toList = text.toList) ∧
    Function.Injective escapeText ∧
    (∀ page, (∃ text, escapeText text = page) ↔ IsEscaped page.toList) ∧
    (∀ page, IsEscaped page.toList ↔
      escapeText (String.ofList (decode textEntities page.toList)) = page) ∧
    ∀ former latter, escapeText (former ++ latter) = escapeText former ++ escapeText latter := by
  have decoded (text : String) : decode textEntities (escapeText text).toList = text.toList := by
    rw [to_list_escape_text]
    exact text_coding.decode_flat_map text.toList
  refine ⟨fun text => ?_, fun text => ?_, decoded, fun former latter same => ?_, fun page => ?_,
    fun page => ?_, fun former latter => ?_⟩
  · rw [to_list_escape_text, escape]
    exact List.flatMap_congr fun character _ => of_text_character_eq character
  · rw [is_plain_iff, escape_text_eq_iff]
  · rw [← String.toList_inj, ← decoded, same, decoded]
  · constructor
    · rintro ⟨text, rfl⟩
      exact is_escaped_escape_text text
    · exact fun escaped => ⟨_, escape_text_decode escaped⟩
  · exact ⟨escape_text_decode, fun same => same ▸ is_escaped_escape_text _⟩
  · rw [escape_text_eq_iff, String.toList_append, String.toList_append, to_list_escape_text,
      to_list_escape_text, escape, List.flatMap_append]
    rfl

end Highlighter.Entity

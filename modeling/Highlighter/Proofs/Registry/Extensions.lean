import Highlighter.Proofs.Registry.Names

/-!
# Every declared extension selects its grammar

What an extension is, is decided in three places: a description is only accepted if each of its
extensions, without the periods at its begin, consists of certain characters; a registry compares
extensions without these periods and without regard to case; a path has the extension that
follows the last period of its file name. The three agree because no accepted extension holds a
period or a slash, in whatever case it is written. So the extension under which a description lists
its files finds the grammar of the description at once, and so does every file of that extension,
whatever else is registered and whatever the name of the file is before its last period.
-/

namespace Highlighter

namespace Path

/-- There is always a first part. -/
theorem cut_ne_nil (separator : Char) (text : List Char) : cut separator text ≠ [] := by
  cases text with
  | nil => exact List.cons_ne_nil _ _
  | cons character rest =>
    rw [cut]
    split
    · exact List.cons_ne_nil _ _
    · split <;> exact List.cons_ne_nil _ _

/-- What holds no separator is not cut. -/
theorem cut_of_not_mem {separator : Char} {name : List Char} (plain : separator ∉ name) :
    cut separator name = [name] := by
  induction name with
  | nil => rfl
  | cons character rest induction =>
    rw [List.mem_cons, not_or] at plain
    rw [cut, if_neg (Ne.symm plain.1), induction plain.2]

/-- A separator cuts, so what stands behind the last one is a part of its own. -/
theorem cut_append {separator : Char} (parent : List Char) {name : List Char}
    (plain : separator ∉ name) :
    cut separator (parent ++ separator :: name) = cut separator parent ++ [name] := by
  induction parent with
  | nil => simp [cut, cut_of_not_mem plain]
  | cons character rest induction =>
    rw [List.cons_append, cut, cut, induction]
    by_cases same : character = separator
    · rw [if_pos same, if_pos same, List.cons_append]
    · rw [if_neg same, if_neg same]
      cases parts : cut separator rest with
      | nil => exact absurd parts (cut_ne_nil separator rest)
      | cons first others => rfl

/-- A text that can stand in front of the name of a file: it is empty or ends with a slash. -/
def Leading (directory : String) : Prop :=
  directory = "" ∨ ∃ parent, directory = parent ++ "/"

/-- A name behind a directory is the last component, if it counts at all. -/
theorem getLast_components {directory : String} (leading : Leading directory) {name : String}
    (plain : '/' ∉ name.toList) (present : name.toList ≠ []) (counted : name.toList ≠ ['.']) :
    (components ⟨directory ++ name⟩).getLast? = some name.toList := by
  have kept : [name.toList].filter (fun component => component ≠ [] && component ≠ ['.']) =
      [name.toList] := by
    simp [present, counted]
  rcases leading with rfl | ⟨parent, rfl⟩
  · rw [components, String.empty_append, cut_of_not_mem plain, kept]
    rfl
  · have parted : (parent ++ "/" ++ name).toList = parent.toList ++ '/' :: name.toList := by
      simp
    rw [components, parted, cut_append _ plain, List.filter_append, kept, List.getLast?_append]
    rfl

/-- The extension of a file is what follows the last period of its name, if something comes before
that period. -/
theorem extension_of_name {directory stem extension : String} (leading : Leading directory)
    (named : stem ≠ "") (within : '/' ∉ stem.toList) (present : extension ≠ "")
    (undivided : '/' ∉ extension.toList) (undotted : '.' ∉ extension.toList) :
    extension? ⟨directory ++ stem ++ "." ++ extension⟩ = some extension := by
  have name : (stem ++ "." ++ extension).toList = stem.toList ++ '.' :: extension.toList := by
    simp
  have before : 0 < stem.toList.length :=
    List.length_pos_iff.mpr fun none => named (String.toList_eq_nil_iff.mp none)
  have behind : 0 < extension.toList.length :=
    List.length_pos_iff.mpr fun none => present (String.toList_eq_nil_iff.mp none)
  -- The name has three characters at least, so it is no component that counts for nothing.
  have long (other : List Char) (short : other.length ≤ 2) :
      (stem ++ "." ++ extension).toList ≠ other := by
    intro same
    rw [name] at same
    have lengths := congrArg List.length same
    simp only [List.length_append, List.length_cons] at lengths
    omega
  have last : (components ⟨directory ++ stem ++ "." ++ extension⟩).getLast? =
      some (stem.toList ++ '.' :: extension.toList) := by
    have joined : directory ++ stem ++ "." ++ extension = directory ++ (stem ++ "." ++ extension) := by
      simp only [String.append_assoc]
    have plain : '/' ∉ (stem ++ "." ++ extension).toList := by
      rw [name]
      simp [within, undivided]
    rw [joined, getLast_components leading plain (long [] (by decide)) (long ['.'] (by decide)), name]
  have file : fileName? ⟨directory ++ stem ++ "." ++ extension⟩ =
      some (stem.toList ++ '.' :: extension.toList) := by
    rw [fileName?, last, ← name]
    exact Option.filter_eq_some_iff.mpr ⟨rfl, by simpa using long ['.', '.'] (by decide)⟩
  have backward : (stem.toList ++ '.' :: extension.toList).reverse =
      extension.toList.reverse ++ '.' :: stem.toList.reverse := by
    simp
  have taken : (extension.toList.reverse ++ '.' :: stem.toList.reverse).takeWhile (· ≠ '.') =
      extension.toList.reverse := by
    rw [List.takeWhile_append_of_pos]
    · simp
    · intro character listed
      have different : character ≠ '.' := by
        rintro rfl
        exact undotted (List.mem_reverse.mp listed)
      simpa using different
  rw [extension?, file, Option.bind_some]
  simp only [backward, taken, List.drop_left, List.drop_succ_cons, List.drop_zero,
    List.isEmpty_reverse, List.reverse_reverse, String.ofList_toList]
  rw [if_neg (by simpa using named)]

end Path

namespace Description

/-- No character of a valid extension, in whatever case, is a period or a slash. -/
theorem not_sign_of_extension_character {character sign : Char}
    (valid : isNameCharacter character || character.isUpper)
    (signed : sign = '.' ∨ sign = '/') : character.toLower ≠ sign := by
  intro lowered
  have foreign : sign.isAlpha = false := by
    rcases signed with rfl | rfl <;> decide
  have plain : character.isAlpha = false := by
    rw [← Char.isAlpha_toLower_eq_isAlpha, lowered, foreign]
  have upper : ¬ character.isUpper := by
    intro capital
    simp [Char.isAlpha, capital] at plain
  rw [Char.toLower_eq_of_not_isUpper upper] at lowered
  rw [lowered] at valid
  rcases signed with rfl | rfl <;> exact absurd valid (by decide)

/-- A valid extension, in whatever case, is not empty and holds neither periods nor slashes. -/
theorem plain_of_valid_extension {bare variant : String} (valid : isValidExtension bare)
    (same : Registry.sameLetters variant bare) :
    variant ≠ "" ∧ '/' ∉ variant.toList ∧ '.' ∉ variant.toList := by
  obtain ⟨filled, all⟩ := Bool.and_eq_true_iff.mp valid
  have letters : variant.toList.map Char.toLower = bare.toList.map Char.toLower := by
    simpa only [Registry.sameLetters, decide_eq_true_eq] using same
  have free {sign : Char} (signed : sign = '.' ∨ sign = '/') : sign ∉ variant.toList := by
    intro listed
    have unchanged : sign.toLower = sign := by
      rcases signed with rfl | rfl <;> decide
    have lowered := List.mem_map_of_mem (f := Char.toLower) listed
    rw [letters, unchanged] at lowered
    obtain ⟨character, member, becomes⟩ := List.mem_map.mp lowered
    exact not_sign_of_extension_character (List.all_eq_true.mp all character member) signed becomes
  refine ⟨?_, free (.inr rfl), free (.inl rfl)⟩
  rintro rfl
  have none : bare.toList = [] := List.map_eq_nil_iff.mp letters.symm
  rw [String.toList_eq_nil_iff] at none
  rw [none] at filled
  cases filled

end Description

/-- What begins with no period has none to drop. -/
theorem withoutDots_of_undotted {text : String} (undotted : '.' ∉ text.toList) :
    withoutDots text = text := by
  have kept : text.toList.dropWhile (· = '.') = text.toList := by
    cases letters : text.toList with
    | nil => rfl
    | cons first others =>
      have different : first ≠ '.' := by
        rintro rfl
        exact undotted (by rw [letters]; exact List.mem_cons_self)
      rw [List.dropWhile_cons_of_neg (by simpa using different)]
  rw [withoutDots, kept, String.ofList_toList]

namespace Registry

/-- What was registered last is looked at first. -/
theorem find_reverse_register (registry : Registry) {grammar : Grammar} {asked : Grammar → Bool}
    (fits : asked grammar) :
    (registry.register grammar).grammars.reverse.find? asked = some grammar := by
  rw [register, List.reverse_append, List.reverse_singleton, List.singleton_append]
  exact List.find?_cons_of_pos fits

/-- The grammar that was registered last is found first by its name. -/
theorem named_register (registry : Registry) (grammar : Grammar) :
    (registry.register grammar).named? grammar.name = some grammar :=
  registry.find_reverse_register (by simp [sameLetters])

/-- The grammar that was registered last is found first by any of its extensions. -/
theorem forExtension_register {registry : Registry} {grammar : Grammar} {own extension : String}
    (listed : own ∈ grammar.extensions) (same : sameLetters own (withoutDots extension)) :
    (registry.register grammar).forExtension? extension = some grammar :=
  registry.find_reverse_register (List.any_eq_true.mpr ⟨own, listed, same⟩)

/-- The extension, as it is written, leads to the grammar: on its own, and in any case as the
extension of a file in any directory, with whatever name before its last period. -/
structure Selects (registry : Registry) (written : String) (grammar : Grammar) : Prop where
  byExtension : registry.forExtension? written = some grammar
  byPath : ∀ directory stem variant : String, Path.Leading directory → stem ≠ "" →
    '/' ∉ stem.toList → sameLetters variant (withoutDots written) →
      registry.forPath? ⟨directory ++ stem ++ "." ++ variant⟩ = some grammar ∧
      registry.choose? none ⟨directory ++ stem ++ "." ++ variant⟩ = some grammar

/-- Once the grammar of an accepted description is registered, every extension that is written in
the description leads to it, whatever else is registered. -/
theorem declared_extension_selects {text : String} {description : Description} {grammar : Grammar}
    {log : List Message} (described : Description.read text = .ok description)
    (accepted : Grammar.parse text = .ok (grammar, log)) {written : String}
    (declared : written ∈ description.extensions) (registry : Registry) :
    (registry.register grammar).Selects written grammar := by
  obtain ⟨read, reads, made, _⟩ := Grammar.parse_eq_ok_iff.mp accepted
  obtain rfl : read = description := Except.ok.inj (reads.symm.trans described)
  obtain ⟨_, extensions, kept, bears⟩ := Description.grammar_eq_ok_iff.mp made
  obtain ⟨rfl, valid⟩ := Description.trimmed_eq_ok_iff.mp kept
  have listed : withoutDots written ∈ grammar.extensions := by
    rw [bears]
    exact List.mem_map_of_mem declared
  constructor
  · exact forExtension_register listed (decide_eq_true rfl)
  · intro directory stem variant leading named within same
    obtain ⟨present, undivided, undotted⟩ :=
      Description.plain_of_valid_extension (valid written declared) same
    have found : (registry.register grammar).forExtension? variant = some grammar := by
      apply forExtension_register listed
      rw [withoutDots_of_undotted undotted]
      simpa [sameLetters, eq_comm] using same
    have selected : (registry.register grammar).forPath? ⟨directory ++ stem ++ "." ++ variant⟩ =
        some grammar := by
      rw [forPath?, Path.extension_of_name leading named within present undivided undotted,
        Option.bind_some, found]
    exact ⟨selected, selected⟩

/-- An extension with two periods, and a file whose name is hidden and has it in capitals, both lead
to the described grammar, though another one with this extension is registered. -/
theorem dotted_extension_selects :
    Description.read "name = \"plain\"\nextensions = [\"..txt\"]" =
        .ok { name := "plain", extensions := ["..txt"] } ∧
      Grammar.parse "name = \"plain\"\nextensions = [\"..txt\"]" =
        .ok (plainGrammar, [.described "plain" 0, .describedNothing "plain"]) ∧
      "..txt" ∈ ["..txt"] ∧
      ((standard.register { name := "rival", extensions := ["Txt"] }).register plainGrammar).Selects
        "..txt" plainGrammar ∧
      Path.Leading "docs/" ∧ ".notes.old" ≠ "" ∧ '/' ∉ ".notes.old".toList ∧
      sameLetters "TXT" (withoutDots "..txt") ∧
      ((standard.register { name := "rival", extensions := ["Txt"] }).register plainGrammar).choose?
        none ⟨"docs/" ++ ".notes.old" ++ "." ++ "TXT"⟩ = some plainGrammar := by
  have described : Description.read "name = \"plain\"\nextensions = [\"..txt\"]" =
      .ok { name := "plain", extensions := ["..txt"] } := by cbv
  have accepted : Grammar.parse "name = \"plain\"\nextensions = [\"..txt\"]" =
      .ok (plainGrammar, [.described "plain" 0, .describedNothing "plain"]) := by cbv
  have declared : "..txt" ∈ ["..txt"] := List.mem_singleton_self _
  have selects := declared_extension_selects described accepted declared
    (standard.register { name := "rival", extensions := ["Txt"] })
  have leading : Path.Leading "docs/" := .inr ⟨"docs", rfl⟩
  have same : sameLetters "TXT" (withoutDots "..txt") := by decide
  exact ⟨described, accepted, declared, selects, leading, by decide, by decide, same,
    (selects.byPath _ ".notes.old" _ leading (by decide) (by decide) same).2⟩

end Registry

end Highlighter

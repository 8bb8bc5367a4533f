import Highlighter.Proofs.Markup.Marking
import Highlighter.Proofs.Markup.Sparing

/-!
# Complete and nested tags

`Tagged` says of a text what a reader of a page asks for: every `<` and `>` belongs to a
complete tag, closing tags answer opening tags, and without the tags the text is the source.
`Nested` says the same of pieces. Tidy marking keeps it, because a stretch that begins and
ends outside of tags may be put one level deeper as a whole.

Marking that is not tidy leaves an opening tag that is torn: a closing tag stands where the
class name belongs. Tidy marking never mends it, and a torn text is not tagged.
-/

namespace Highlighter.Markup

open Text (Cursor)

variable {categories : List Category} {depth middle final : Nat}

/-- The text has complete tags of these categories, so many of them open at its begin and none
at its end, and without them it is the source. -/
inductive Tagged (categories : List Category) : Nat → List Char → List Char → Prop where
  | done : Tagged categories 0 [] []
  | text {depth : Nat} {character : Char} {text source : List Char}
      (plain : character ≠ '<' ∧ character ≠ '>') (others : Tagged categories depth text source) :
      Tagged categories depth (character :: text) (character :: source)
  | opened {depth : Nat} {category : Category} {text source : List Char}
      (listed : category ∈ categories) (others : Tagged categories (depth + 1) text source) :
      Tagged categories depth (html.opened category ++ text) source
  | closed {depth : Nat} {text source : List Char} (others : Tagged categories depth text source) :
      Tagged categories (depth + 1) (html.closing.toList ++ text) source

/-- In a tagged text `<` begins a complete tag. -/
theorem Tagged.begins_tag {text source : List Char} (tagged : Tagged categories depth text source)
    {before after : List Char} (cut : text = before ++ '<' :: after) :
    (∃ category, html.opened category <+: '<' :: after) ∨ html.closing.toList <+: '<' :: after := by
  have inner {tag begun rest : List Char} (single : '<' ∉ tag.tail) (others : List Char)
      (same : tag ++ rest = begun ++ '<' :: others) :
      tag <+: '<' :: others ∨ ∃ further, rest = further ++ '<' :: others := by
    rcases List.append_eq_append_iff.mp same with ⟨further, rfl, behind⟩ | ⟨further, text, behind⟩
    · exact .inr ⟨further, behind⟩
    · cases further with
      | nil => exact .inr ⟨[], by rw [List.nil_append, behind]; rfl⟩
      | cons first further =>
        cases begun with
        | nil => exact .inl ⟨rest, by rw [text, behind]; rfl⟩
        | cons head begun =>
          obtain ⟨rfl, _⟩ := List.cons.inj behind
          exact absurd (by rw [text]; simp) single
  induction tagged generalizing before with
  | done => simp at cut
  | text plain others induction =>
    cases before with
    | nil => exact absurd (List.cons.inj cut).1 plain.1
    | cons character before => exact induction (List.cons.inj cut).2
  | @opened depth category text source listed others induction =>
    have single : '<' ∉ (html.opened category).tail := by cases category <;> decide
    rcases inner single after cut with whole | ⟨further, rest⟩
    · exact .inl ⟨category, whole⟩
    · exact induction rest
  | closed others induction =>
    rcases inner (by decide) after cut with whole | ⟨further, rest⟩
    · exact .inr whole
    · exact induction rest

/-- The tags among the pieces are complete and of these categories. So many of them are open at
the begin, and so many at the end. -/
inductive Nested (categories : List Category) : Nat → List Token → Nat → Prop where
  | nil {depth : Nat} : Nested categories depth [] depth
  | source {depth final : Nat} {character : Char} {tokens : List Token}
      (others : Nested categories depth tokens final) :
      Nested categories depth (.source character :: tokens) final
  | opened {depth final : Nat} {category : Category} {tokens : List Token}
      (listed : category ∈ categories) (others : Nested categories (depth + 1) tokens final) :
      Nested categories depth (.opening :: .name category :: tokens) final
  | closed {depth final : Nat} {tokens : List Token}
      (others : Nested categories depth tokens final) :
      Nested categories (depth + 1) (.closing :: tokens) final

/-- Nested pieces may stand one behind the other. -/
theorem Nested.append {former latter : List Token} (begun : Nested categories depth former middle)
    (ended : Nested categories middle latter final) :
    Nested categories depth (former ++ latter) final := by
  induction begun with
  | nil => exact ended
  | source _ induction => exact .source (induction ended)
  | opened listed _ induction => exact .opened listed (induction ended)
  | closed _ induction => exact .closed (induction ended)

/-- Nested pieces can be cut outside of tags. -/
theorem Nested.cut {former latter : List Token} (outside : state? false former = some false)
    (nested : Nested categories depth (former ++ latter) final) :
    ∃ middle, Nested categories depth former middle ∧ Nested categories middle latter final := by
  generalize whole : former ++ latter = tokens at nested
  induction nested generalizing former with
  | nil =>
    obtain ⟨rfl, rfl⟩ := List.append_eq_nil_iff.mp whole
    exact ⟨_, .nil, .nil⟩
  | @source depth final character tokens others induction =>
    cases former with
    | nil => exact ⟨_, .nil, (show latter = _ from whole) ▸ .source others⟩
    | cons token further =>
      obtain ⟨rfl, rest⟩ := List.cons.inj whole
      have onward : state? false further = some false := outside
      obtain ⟨middle, begun, ended⟩ := induction onward rest
      exact ⟨middle, .source begun, ended⟩
  | @opened depth final category tokens listed others induction =>
    cases former with
    | nil => exact ⟨_, .nil, (show latter = _ from whole) ▸ .opened listed others⟩
    | cons token further =>
      obtain ⟨rfl, behind⟩ := List.cons.inj whole
      cases further with
      | nil => cases outside
      | cons next further =>
        obtain ⟨rfl, rest⟩ := List.cons.inj behind
        have onward : state? false further = some false := outside
        obtain ⟨middle, begun, ended⟩ := induction onward rest
        exact ⟨middle, .opened listed begun, ended⟩
  | @closed depth final tokens others induction =>
    cases former with
    | nil => exact ⟨_, .nil, (show latter = _ from whole) ▸ .closed others⟩
    | cons token further =>
      obtain ⟨rfl, rest⟩ := List.cons.inj whole
      have onward : state? false further = some false := outside
      obtain ⟨middle, begun, ended⟩ := induction onward rest
      exact ⟨middle, .closed begun, ended⟩

/-- Nested pieces may be put one level deeper. -/
theorem Nested.deepen {tokens : List Token} (nested : Nested categories depth tokens final) :
    Nested categories (depth + 1) tokens (final + 1) := by
  induction nested with
  | nil => exact .nil
  | source _ induction => exact .source induction
  | opened listed _ induction => exact .opened listed induction
  | closed _ induction => exact .closed induction

/-- Tidy marking keeps the pieces nested.

Proof: induction over the marked stretches. Each is cut out, put one level deeper and put back
between an opening and a closing tag. -/
theorem Wrapped.nested {category : Category} (listed : category ∈ categories)
    {tokens result : List Token} (wrapped : Wrapped True category false tokens result)
    (nested : Nested categories depth tokens final) : Nested categories depth result final := by
  generalize outside : false = inside at wrapped
  induction wrapped generalizing depth with
  | rest orderly => exact nested
  | @wrap inside middle gap covered latter result begun ended complete others induction =>
    subst outside
    obtain rfl : middle = false := complete trivial
    obtain ⟨outer, before, rest⟩ := nested.cut begun
    obtain ⟨inner, within, behind⟩ := rest.cut ended
    exact before.append (.opened listed (within.deepen.append (.closed (induction behind rfl))))

/-- Marking keeps the characters of the source. -/
theorem Wrapped.sources_eq {tidy : Prop} {category : Category} {inside : Bool}
    {tokens result : List Token} (wrapped : Wrapped tidy category inside tokens result) :
    sources result = sources tokens := by
  induction wrapped with
  | rest orderly => rfl
  | wrap _ _ _ _ induction =>
    simp only [sources, List.filter_append, List.filter_cons, Bool.false_eq_true, ↓reduceIte]
      at induction ⊢
    rw [induction]

/-- The text of nested pieces is tagged, and without the tags it is the text of the source. -/
theorem Nested.tagged {tokens : List Token} (nested : Nested categories depth tokens 0) :
    Tagged categories depth (written tokens) (written (sources tokens)) := by
  generalize ended : 0 = final at nested
  induction nested with
  | nil => exact ended ▸ .done
  | @source depth final character tokens others induction =>
    have plain : ∀ other ∈ (Token.source character).text, other ≠ '<' ∧ other ≠ '>' := by
      by_cases special : Entity.isSpecial character
      · simp only [Entity.isSpecial, Bool.or_eq_true, decide_eq_true_eq] at special
        rcases special with (rfl | rfl) | rfl <;> decide
      · have alone : character ≠ '<' ∧ character ≠ '>' := by
          constructor <;> rintro rfl <;> exact special rfl
        rw [text_of_plain (by simpa using special)]
        exact fun other listed => List.mem_singleton.mp listed ▸ alone
    have stretch : ∀ (begin text source : List Char), (∀ other ∈ begin, other ≠ '<' ∧ other ≠ '>') →
        Tagged categories depth text source →
        Tagged categories depth (begin ++ text) (begin ++ source) := by
      intro begin text source plain tagged
      induction begin with
      | nil => exact tagged
      | cons first further induction =>
        exact .text (plain first List.mem_cons_self)
          (induction fun other listed => plain other (List.mem_cons_of_mem _ listed))
    exact stretch _ _ _ plain (induction ended)
  | opened listed others induction =>
    rw [written_cons, written_cons, ← List.append_assoc]
    have whole := Tagged.opened listed (induction ended)
    rwa [Markup.opened, List.append_assoc html.opening.toList] at whole
  | closed others induction => exact .closed (induction ended)

/-- An opening tag is cut off from its class name by a closing tag. -/
def Torn (tokens : List Token) : Prop :=
  ∃ former latter, tokens = former ++ .opening :: .closing :: latter

/-- What is torn stays torn with more before and behind it. -/
theorem Torn.append {tokens : List Token} (torn : Torn tokens) (before behind : List Token) :
    Torn (before ++ (tokens ++ behind)) := by
  obtain ⟨former, latter, rfl⟩ := torn
  exact ⟨before ++ former, latter ++ behind, by simp⟩

/-- Torn pieces are torn in one of their parts, or where the parts meet. -/
theorem Torn.split {former latter : List Token} (torn : Torn (former ++ latter)) :
    Torn former ∨ Torn latter ∨ ∃ begun, former = begun ++ [.opening] := by
  obtain ⟨begun, ended, whole⟩ := torn
  rcases List.append_eq_append_iff.mp whole with ⟨further, rfl, rest⟩ | ⟨further, rfl, rest⟩
  · exact .inr (.inl ⟨further, ended, rest⟩)
  · cases further with
    | nil => exact .inr (.inl ⟨[], ended, rest.symm⟩)
    | cons first further =>
      obtain ⟨rfl, behind⟩ := List.cons.inj rest
      cases further with
      | nil => exact .inr (.inr ⟨begun, rfl⟩)
      | cons second further =>
        obtain ⟨rfl, _⟩ := List.cons.inj behind
        exact .inl ⟨begun, further, rfl⟩

/-- Tidy marking does not mend what is torn.

Proof: the marked stretches begin and end outside of tags, so no tear is where they meet. -/
theorem Wrapped.torn {category : Category} {inside : Bool} {tokens result : List Token}
    (wrapped : Wrapped True category inside tokens result) (torn : Torn tokens) : Torn result := by
  induction wrapped with
  | rest orderly => exact torn
  | @wrap inside middle gap covered latter result begun ended complete others induction =>
    rcases torn.split with gapTorn | rest | ⟨_, rfl⟩
    · exact gapTorn.append [] _
    · rcases rest.split with coveredTorn | latterTorn | ⟨_, rfl⟩
      · have whole := coveredTorn.append (gap ++ [.opening, .name category]) (.closing :: result)
        simpa using whole
      · have whole := (induction latterTorn).append
          (gap ++ .opening :: .name category :: (covered ++ [.closing])) []
        simpa using whole
      · exact absurd (ended.trans (by rw [complete trivial])) not_outside_opening
    · exact absurd begun not_outside_opening

/-- No class name begins with the first character of a tag. -/
theorem class_name_not_tag {category : Category} {rest behind : List Char} :
    category.className.toList ++ rest ≠ '<' :: behind := by
  intro same
  have first : category.className.toList.head? = some 'c' := by cases category <;> decide
  have head := congrArg List.head? same
  rw [List.head?_append, first] at head
  cases head

/-- If a closing tag stands in the text where a class name belongs, the pieces are torn. -/
theorem torn_of_text {tokens : List Token} (orderly : Orderly false tokens)
    {before after : List Char}
    (cut : written tokens = before ++ (html.opening.toList ++ (html.closing.toList ++ after))) :
    Torn tokens := by
  obtain ⟨former, tag, latter, rfl, _, either, same⟩ := tag_at_less orderly cut
  rcases List.mem_pair.mp either with rfl | rfl
  · obtain ⟨middle, _, rest⟩ := orderly_append_iff.mp orderly
    obtain ⟨inside, passes, ordered⟩ := orderly_cons_iff.mp rest
    obtain rfl : inside = true := by
      cases middle with
      | false => exact (Option.some.inj passes).symm
      | true => cases passes
    have behind : html.closing.toList ++ after = written latter :=
      List.append_cancel_left (show html.opening.toList ++ _ = _ ++ _ from same)
    cases latter with
    | nil => cases behind
    | cons next others =>
      obtain ⟨_, allowed, _⟩ := orderly_cons_iff.mp ordered
      rw [written_cons] at behind
      cases next with
      | source character => cases allowed
      | opening => cases allowed
      | name category =>
        rw [Token.text, List.append_assoc] at behind
        exact absurd behind.symm class_name_not_tag
      | closing => exact ⟨former, others, rfl⟩
  · cases same

/-- A torn text is not tagged. -/
theorem Torn.not_tagged {tokens : List Token} (torn : Torn tokens) {source : List Char} :
    ¬ Tagged categories depth (written tokens) source := by
  intro tagged
  obtain ⟨former, latter, rfl⟩ := torn
  have cut : written (former ++ .opening :: .closing :: latter) = written former ++
      '<' :: ("span class=\"</span>".toList ++ written latter) := by
    simp [written_append, written_cons, Token.text, html]
  rcases tagged.begins_tag cut with ⟨category, rest, opened⟩ | ⟨rest, closed⟩
  · rw [Markup.opened, List.append_assoc, List.append_assoc] at opened
    have behind := List.append_cancel_left
      (show html.opening.toList ++ _ = html.opening.toList ++ '<' :: ("/span>".toList ++ _)
        from opened)
    exact class_name_not_tag behind
  · cases closed

end Highlighter.Markup

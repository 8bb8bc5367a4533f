import Highlighter.Proofs.Highlight.Accounting

/-!
# Categories that are left out

A run only looks at whether an entry of its plan is active. So a producer without a pattern and
one with an empty pattern come to the same, and no other category notices either of them.

The plan is made before anything is looked at, and its entry for functions is made from the
pattern of names. With the tail that makes a name a call no pattern is empty any more: only a
grammar without names leaves its functions out, and one with an empty pattern of names marks the
blanks in front of parentheses.
-/

namespace Highlighter

namespace Grammar

/-- The pattern that a grammar gives for a category. Functions are found by names. -/
def producer (grammar : Grammar) : Category → Option Pattern
  | .keyword => grammar.keywords
  | .literal => grammar.literals
  | .function | .identifier => grammar.identifiers
  | .number => grammar.numbers
  | .type => grammar.classes
  | .comment => grammar.comments

/-- The grammar with nothing given for the category. -/
def without (grammar : Grammar) : Category → Grammar
  | .keyword => { grammar with keywords := none }
  | .literal => { grammar with literals := none }
  | .function | .identifier => { grammar with identifiers := none }
  | .number => { grammar with numbers := none }
  | .type => { grammar with classes := none }
  | .comment => { grammar with comments := none }

/-- Nothing, or an empty pattern, is given for the category. An empty pattern of names does not
leave the functions out. -/
def LeavesOut (grammar : Grammar) (category : Category) : Prop :=
  (grammar.producer category).all Pattern.isEmpty ∧
    (category = .function → grammar.identifiers = none)

/-- The pattern of calls is never empty. -/
theorem functions_active (grammar : Grammar) :
    Highlight.active? grammar.functions = none ↔ grammar.identifiers = none := by
  have filled (pattern : Pattern) : (pattern ++ call).isEmpty = false := by
    have source : (pattern ++ call).source = pattern.source ++ call.source := rfl
    rw [Pattern.isEmpty, source, String.isEmpty_eq_false_iff]
    simp [call]
  cases named : grammar.identifiers with
  | none => simp [functions, named, Highlight.active?]
  | some pattern => simp [functions, named, Highlight.active?, Option.filter, filled pattern]

/-- An entry without an active pattern leaves its category out. -/
theorem not_active_iff {entry : Option Pattern} :
    Highlight.active? entry = none ↔ entry.all Pattern.isEmpty := by
  cases entry <;> simp [Highlight.active?]

/-- The entries of the plan that come before that of the category. -/
def before (grammar : Grammar) (category : Category) : List (Category × Option Pattern) :=
  grammar.plan.takeWhile fun entry => entry.1 ≠ category

/-- The plan has one entry for each category that can be marked. Its pattern is applied unless
the grammar leaves the category out. Without its producer the entry alone is different. -/
theorem exists_entry (grammar : Grammar) {category : Category} (emitted : category ≠ .identifier) :
    ∃ entry later, grammar.plan = grammar.before category ++ (category, entry) :: later ∧
      (∀ other ∈ later, other.1 ≠ category) ∧
      (Highlight.active? entry = none ↔ grammar.LeavesOut category) ∧
      (grammar.without category).plan = grammar.before category ++ (category, none) :: later := by
  have plainly {entry : Option Pattern} (same : grammar.producer category = entry)
      (plain : category ≠ .function) :
      Highlight.active? entry = none ↔ grammar.LeavesOut category := by
    rw [not_active_iff, LeavesOut, same]
    exact ⟨fun absent => ⟨absent, fun named => absurd named plain⟩, And.left⟩
  cases category with
  | function =>
    refine ⟨_, _, rfl, by simp, ?_, rfl⟩
    rw [functions_active, LeavesOut]
    constructor
    · exact fun absent => ⟨by rw [producer, absent]; rfl, fun _ => absent⟩
    · exact fun absent => absent.2 rfl
  | keyword | literal | number | type | comment =>
    exact ⟨_, _, rfl, by simp, plainly rfl nofun, rfl⟩
  | identifier => exact absurd rfl emitted

/-- No entry before that of the category is of the category. -/
theorem before_apart (grammar : Grammar) (category : Category) :
    ∀ other ∈ grammar.before category, other.1 ≠ category := by
  intro other listed
  simpa using List.mem_takeWhile_imp listed

end Grammar

namespace Highlight

variable {markup : Markup} {category : Category} {content : String}
  {earlier later : List (Category × Option Pattern)} {entry : Option Pattern}

/-- An entry without an active pattern is as good as one without a pattern. -/
theorem passes_of_absent (absent : active? entry = none) :
    passes markup (earlier ++ (category, entry) :: later) content =
      passes markup (earlier ++ (category, none) :: later) content := by
  have head (content : String) : passes markup ((category, entry) :: later) content =
      passes markup ((category, none) :: later) content := by
    have nothing : active? none = none := rfl
    rw [passes, passes, absent, nothing]
  rw [passes_append, passes_append, funext head]

/-- In lists that are related item by item each item of the second has a partner in the first. -/
theorem exists_partner {Item Other : Type} {related : Item → Other → Prop} {items : List Item}
    {others : List Other} (pairs : List.Forall₂ related items others) {other : Other}
    (listed : other ∈ others) : ∃ item ∈ items, related item other := by
  induction pairs with
  | nil => cases listed
  | cons pair _ induction =>
    rcases List.mem_cons.mp listed with rfl | further
    · exact ⟨_, List.mem_cons_self, pair⟩
    · obtain ⟨item, among, partner⟩ := induction further
      exact ⟨item, List.mem_cons_of_mem _ among, partner⟩

/-- What a run tells of skipping is true of an entry of its plan. -/
theorem exists_skipped {plan : List (Category × Option Pattern)}
    (told : .skipped category ∈ (passes markup plan content).log) :
    ∃ entry, (category, entry) ∈ plan ∧ active? entry = none := by
  have among {entries : List (Category × Option Pattern)}
      (tells : List.Forall₂ Told entries (passes markup plan content).log) :
      ∃ entry, (category, entry) ∈ entries ∧ active? entry = none := by
    obtain ⟨head, listed, about⟩ := exists_partner tells told
    cases about with
    | skipped absent => exact ⟨_, listed, absent⟩
  have tells := passes_tells markup plan content
  cases ended : (passes markup plan content).error with
  | none => exact among (tells.succeeded ended)
  | some error =>
    obtain ⟨before, pattern, behind, split, _, tellsBefore⟩ := tells.failed error ended
    obtain ⟨entry, listed, absent⟩ := among tellsBefore
    exact ⟨entry, split ▸ List.mem_append_left _ listed, absent⟩

/-- The run tells that it skips an entry if the entry is not active and the run comes to it. -/
theorem skipped_iff (former : ∀ other ∈ earlier, other.1 ≠ category)
    (latter : ∀ other ∈ later, other.1 ≠ category) :
    .skipped category ∈ (passes markup (earlier ++ (category, entry) :: later) content).log ↔
      active? entry = none ∧ (passes markup earlier content).error = none := by
  rw [passes_append]
  cases ended : (passes markup earlier content).error with
  | some error =>
    rw [RunOn.and_then_failed ended]
    refine ⟨fun told => ?_, fun both => nomatch both.2⟩
    obtain ⟨other, listed, _⟩ := exists_skipped told
    exact absurd rfl (former _ listed)
  | none =>
    rw [RunOn.and_then_completed ended, List.mem_append]
    refine ⟨fun told => ⟨?_, rfl⟩, fun ⟨absent, _⟩ => .inr ?_⟩
    · rcases told with before | behind
      · obtain ⟨other, listed, _⟩ := exists_skipped before
        exact absurd rfl (former _ listed)
      · obtain ⟨other, listed, absent⟩ := exists_skipped behind
        rcases List.mem_cons.mp listed with same | further
        · obtain ⟨_, rfl⟩ := Prod.mk.inj same
          exact absent
        · exact absurd rfl (latter _ further)
    · rw [passes, absent]
      exact List.mem_cons_self

/-- A run lays no layer of a category whose entry is not active, tells of no pass over it, and
does not fail there. -/
theorem untouched (markup : Markup) (content : String)
    (former : ∀ other ∈ earlier, other.1 ≠ category)
    (latter : ∀ other ∈ later, other.1 ≠ category) (absent : active? entry = none) :
    let plan := earlier ++ (category, entry) :: later
    ∃ layers, Overlaid markup plan content (passes markup plan content) layers ∧
      (∀ layer ∈ layers, layer.category ≠ category) ∧
      (∀ count, .passed category count ∉ (passes markup plan content).log) ∧
      ∀ error, (passes markup plan content).error = some error → error.category ≠ category := by
  intro plan
  have apart : ∀ other ∈ applied plan, other.1 ≠ category := by
    intro other listed
    obtain ⟨head, among, active⟩ := List.mem_filterMap.mp listed
    obtain ⟨pattern, present, rfl⟩ := Option.map_eq_some_iff.mp active
    rcases List.mem_append.mp among with before | behind
    · exact former head before
    · rcases List.mem_cons.mp behind with rfl | further
      · rw [absent] at present
        cases present
      · exact latter head further
  obtain ⟨layers, overlaid⟩ := passes_overlay markup plan content
  obtain ⟨done, pending, split, marks, stopped⟩ := overlaid.committed
  have others : ∀ layer ∈ layers, layer.category ≠ category := by
    intro layer listed
    obtain ⟨mark, among, sameCategory, _⟩ := exists_partner marks listed
    rw [sameCategory]
    exact apart mark (split ▸ List.mem_append_left _ among)
  refine ⟨layers, overlaid, others, fun count told => ?_, fun error failed => ?_⟩
  · have reported : (category, count) ∈ (passes markup plan content).log.filterMap Message.pass? :=
      List.mem_filterMap.mpr ⟨_, told, rfl⟩
    rw [← overlaid.reported] at reported
    obtain ⟨layer, listed, same⟩ := List.mem_map.mp reported
    exact others layer listed (Prod.mk.inj same).1
  · rw [failed] at stopped
    obtain ⟨pattern, further, rfl⟩ := stopped
    exact apart _ (split ▸ List.mem_append_right _ List.mem_cons_self)

end Highlight

/-- The run tells that it skips a category if and only if nothing is given for it, or an empty
pattern, and no earlier category has failed. The run is then the one without the producer: no
layer is of the category, no pass over it is told of, and no error is about it. The functions are
skipped only if no names are given; an empty pattern of names does not leave them out. -/
theorem absent_producer_left_out (markup : Markup) (grammar : Grammar) (content : String)
    {category : Category} (emitted : category ≠ .identifier) :
    let run := highlightWith markup grammar content
    (.skipped category ∈ run.log ↔ grammar.LeavesOut category ∧
      (Highlight.passes markup (grammar.before category) content).error = none) ∧
    (grammar.LeavesOut category →
      run = highlightWith markup (grammar.without category) content ∧
      (∃ layers, Overlaid markup grammar.plan content run layers ∧
        ∀ layer ∈ layers, layer.category ≠ category) ∧
      (∀ count, .passed category count ∉ run.log) ∧
      ∀ error, run.error = some error → error.category ≠ category) := by
  obtain ⟨entry, later, plan, latter, active, without⟩ := grammar.exists_entry emitted
  have former := grammar.before_apart category
  refine ⟨?_, fun absent => ?_⟩
  · rw [highlightWith, plan, ← active]
    exact Highlight.skipped_iff former latter
  · rw [← active] at absent
    obtain ⟨layers, overlaid, others, silent, unfailed⟩ :=
      Highlight.untouched markup content former latter absent
    simp only [highlightWith, plan, without]
    exact ⟨Highlight.passes_of_absent absent, ⟨layers, overlaid, others⟩, silent, unfailed⟩

/-- A grammar that marks the digit one, and whose pattern of comments is empty. -/
def emptyComments : Grammar where
  name := "empty"
  extensions := []
  numbers := some ⟨"1", {}⟩
  comments := some ⟨"", .dotAll⟩

/-- Behind a pass that has marked something, an empty pattern is skipped as a missing one is. -/
theorem empty_comments_left_out :
    Category.comment ≠ .identifier ∧ emptyComments.LeavesOut .comment ∧
      .skipped .comment ∈ (highlightWith Markup.html emptyComments "1").log ∧
      highlightWith Markup.html emptyComments "1" =
        highlightWith Markup.html (emptyComments.without .comment) "1" := by
  have emitted : Category.comment ≠ .identifier := nofun
  have absent : emptyComments.LeavesOut .comment := ⟨rfl, nofun⟩
  have reached : (Highlight.passes Markup.html (emptyComments.before .comment) "1").error = none := by
    cbv
  obtain ⟨skipped, same⟩ := absent_producer_left_out Markup.html emptyComments "1" emitted
  exact ⟨emitted, absent, skipped.mpr ⟨absent, reached⟩, (same absent).1⟩

/-- A grammar whose pattern of names is empty. -/
def emptyNames : Grammar where
  name := "nameless"
  extensions := []
  identifiers := some ⟨"", {}⟩

/-- The producer of the functions gives an empty pattern, but the functions are not left out: the
blank in front of a parenthesis is marked, and nothing is told of skipping. -/
theorem empty_names_mark_blank :
    (emptyNames.producer .function).all Pattern.isEmpty ∧
      (highlight emptyNames " (").content = "<span class=\"code-function\"> </span>(" ∧
      (.skipped .function ∉ (highlight emptyNames " (").log) ∧
      (highlight (emptyNames.without .function) " (").content = " (" := by
  have told : (highlight emptyNames " (").log = [.skipped .keyword, .skipped .literal,
      .passed .function 1, .skipped .number, .skipped .type, .skipped .comment] := by cbv
  refine ⟨rfl, by cbv, ?_, by cbv⟩
  rw [told]
  decide

end Highlighter

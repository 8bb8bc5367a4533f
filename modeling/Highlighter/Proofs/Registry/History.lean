import Highlighter.Registry
import Mathlib

/-!
# A registry is what is left of its history

A registry is reached by registering one grammar after another. What it lists is decided by
the history of these calls alone: of each name the grammar that was registered last, in the
order of the calls. The time of a call is its number in the history. A lookup gives the
latest of the listed grammars that it asks for, so a grammar that has been replaced is never
found, whatever it was found by before.

Names are compared exactly where grammars replace each other, and without regard to case
where they are looked up. Nothing is assumed of the grammars.
-/

namespace Highlighter.Registry

/-- Register several grammars, one after another. -/
def registerAll (registry : Registry) (calls : List Grammar) : Registry :=
  calls.foldl register registry

/-- The grammar was registered at the time, and none of its name later. -/
structure LastAt (history : List Grammar) (time : Nat) (grammar : Grammar) : Prop where
  registered : history[time]? = some grammar
  last : ∀ later other, time < later → history[later]? = some other → other.name ≠ grammar.name

/-- Of the grammars that were the last of their names, this one was registered latest among
those that meet the condition. -/
def Latest (history : List Grammar) (condition : Grammar → Prop) (grammar : Grammar) : Prop :=
  ∃ time, LastAt history time grammar ∧ condition grammar ∧
    ∀ later other, LastAt history later other → condition other → later ≤ time

/-- The list holds the last grammar of each name with its time, in the order of time. -/
structure Dated (history : List Grammar) (dated : List (Nat × Grammar)) : Prop where
  ordered : dated.Pairwise fun earlier later => earlier.1 < later.1
  mem_iff : ∀ time grammar, (time, grammar) ∈ dated ↔ LastAt history time grammar

/-- The registry is what is left of the history. -/
structure Recorded (history : List Grammar) (registry : Registry) : Prop where
  /-- The grammars are those registered last under their names, in the order of time. -/
  dated : ∃ dated, Dated history dated ∧ registry.grammars = dated.map Prod.snd
  /-- No two of them have one name. -/
  distinct : (registry.grammars.map Grammar.name).Nodup
  /-- Every name that has been registered is listed, and no other. -/
  named : ∀ name, name ∈ registry.grammars.map Grammar.name ↔ name ∈ history.map Grammar.name
  /-- There are as many grammars as names. -/
  counted : registry.grammars.length = (history.map Grammar.name).dedup.length
  /-- The next call replaces a grammar if its name has been registered before. -/
  told : ∀ grammar, registry.registration grammar =
    if grammar.name ∈ history.map Grammar.name then .replaced grammar.name
    else .registered grammar.name
  /-- A name leads to the latest listed grammar with that name, up to the case of letters. -/
  byName : ∀ name grammar, registry.named? name = some grammar ↔
    Latest history (fun listed => sameLetters listed.name name) grammar
  /-- An extension leads to the latest listed grammar that has it, up to periods at its begin
  and the case of letters. -/
  byExtension : ∀ extension grammar, registry.forExtension? extension = some grammar ↔
    Latest history (fun listed => ∃ own ∈ listed.extensions,
      sameLetters own (withoutDots extension)) grammar

/-- Before anything is registered, nothing is listed. -/
theorem dated_nil : Dated [] [] where
  ordered := .nil
  mem_iff time grammar := by
    constructor
    · intro listed
      cases listed
    · rintro ⟨registered, _⟩
      simp at registered

/-- At the end of the history stands the newest call; what was last before and has another
name stays so. -/
theorem last_at_concat {history : List Grammar} {newest : Grammar} {time : Nat}
    {grammar : Grammar} :
    LastAt (history ++ [newest]) time grammar ↔
      (LastAt history time grammar ∧ grammar.name ≠ newest.name) ∨
        time = history.length ∧ grammar = newest := by
  constructor
  · rintro ⟨registered, last⟩
    rcases Nat.lt_trichotomy time history.length with before | rfl | behind
    · refine .inl ⟨⟨?_, fun later other passed found => ?_⟩, fun same => ?_⟩
      · rwa [List.getElem?_append_left before] at registered
      · have inside := (List.getElem?_eq_some_iff.mp found).1
        exact last later other passed (by rwa [List.getElem?_append_left inside])
      · exact last history.length newest before (by simp) same.symm
    · exact .inr ⟨rfl, by simpa using registered.symm⟩
    · have inside := (List.getElem?_eq_some_iff.mp registered).1
      simp only [List.length_append, List.length_singleton] at inside
      omega
  · rintro (⟨⟨registered, last⟩, different⟩ | ⟨rfl, rfl⟩)
    · have inside := (List.getElem?_eq_some_iff.mp registered).1
      refine ⟨by rwa [List.getElem?_append_left inside], fun later other passed found => ?_⟩
      rcases Nat.lt_or_ge later history.length with before | behind
      · rw [List.getElem?_append_left before] at found
        exact last later other passed found
      · rw [List.getElem?_append_right behind, List.getElem?_singleton] at found
        split at found
        · obtain rfl := Option.some.inj found
          exact different.symm
        · cases found
    · refine ⟨by simp, fun later other passed found => ?_⟩
      have inside := (List.getElem?_eq_some_iff.mp found).1
      simp only [List.length_append, List.length_singleton] at inside
      omega

/-- A call drops what has its name and adds the newest grammar at the end. -/
theorem Dated.concat {history : List Grammar} {dated : List (Nat × Grammar)}
    (dates : Dated history dated) (newest : Grammar) :
    Dated (history ++ [newest])
      (dated.filter (fun entry => entry.2.name ≠ newest.name) ++ [(history.length, newest)]) where
  ordered := by
    refine List.pairwise_append.mpr
      ⟨dates.ordered.sublist List.filter_sublist, List.pairwise_singleton _ _, ?_⟩
    intro earlier listed later single
    obtain rfl := List.mem_singleton.mp single
    obtain ⟨registered, _⟩ := (dates.mem_iff _ _).mp (List.mem_of_mem_filter listed)
    exact (List.getElem?_eq_some_iff.mp registered).1
  mem_iff time grammar := by
    rw [last_at_concat, ← dates.mem_iff]
    simp [List.mem_filter]

/-- The listed grammars stay those that were last, call after call. -/
theorem dated_register {history : List Grammar} {registry : Registry}
    (recorded : ∃ dated, Dated history dated ∧ registry.grammars = dated.map Prod.snd)
    (calls : List Grammar) :
    ∃ dated, Dated (history ++ calls) dated ∧
      (registry.registerAll calls).grammars = dated.map Prod.snd := by
  induction calls generalizing history registry with
  | nil => simpa [registerAll] using recorded
  | cons newest others induction =>
    obtain ⟨dated, dates, listed⟩ := recorded
    have next : ∃ dated, Dated (history ++ [newest]) dated ∧
        (registry.register newest).grammars = dated.map Prod.snd := by
      refine ⟨_, dates.concat newest, ?_⟩
      rw [register, listed, List.map_append, List.filter_map]
      rfl
    have onward := induction next
    rwa [List.append_assoc] at onward

/-- Of each name in the history, some grammar was the last. -/
theorem exists_last {history : List Grammar} {name : String}
    (known : name ∈ history.map Grammar.name) :
    ∃ time grammar, LastAt history time grammar ∧ grammar.name = name := by
  induction history using List.reverseRecOn with
  | nil => cases known
  | append_singleton earlier newest induction =>
    by_cases same : newest.name = name
    · exact ⟨_, newest, last_at_concat.mpr (.inr ⟨rfl, rfl⟩), same⟩
    · have before : name ∈ earlier.map Grammar.name := by
        rcases List.mem_map.mp known with ⟨grammar, listed, rfl⟩
        rcases List.mem_append.mp listed with former | single
        · exact List.mem_map_of_mem former
        · obtain rfl := List.mem_singleton.mp single
          exact absurd rfl same
      obtain ⟨time, grammar, last, rfl⟩ := induction before
      exact ⟨time, grammar, last_at_concat.mpr (.inl ⟨last, fun again => same again.symm⟩), rfl⟩

/-- Searching from the end finds the entry of the latest time. -/
theorem find_reverse_dated {dated : List (Nat × Grammar)} {asked : Grammar → Bool}
    (ordered : dated.Pairwise fun earlier later => earlier.1 < later.1) (grammar : Grammar) :
    (dated.map Prod.snd).reverse.find? asked = some grammar ↔
      ∃ time, (time, grammar) ∈ dated ∧ asked grammar ∧
        ∀ later other, (later, other) ∈ dated → asked other → later ≤ time := by
  induction dated with
  | nil => simp
  | cons entry others induction =>
    obtain ⟨before, ordered⟩ := List.pairwise_cons.mp ordered
    rw [List.map_cons, List.reverse_cons, List.find?_append, Option.or_eq_some_iff,
      induction ordered]
    constructor
    · rintro (⟨time, listed, asks, latest⟩ | ⟨missing, only⟩)
      · refine ⟨time, List.mem_cons_of_mem _ listed, asks, fun later other member asked => ?_⟩
        rcases List.mem_cons.mp member with rfl | further
        · exact Nat.le_of_lt (before _ listed)
        · exact latest later other further asked
      · have single : asked entry.2 ∧ entry.2 = grammar := by
          simpa [List.find?_singleton] using only
        obtain ⟨asks, rfl⟩ := single
        refine ⟨entry.1, List.mem_cons_self, asks, fun later other member asked => ?_⟩
        rcases List.mem_cons.mp member with rfl | further
        · exact Nat.le_refl _
        · have refused := List.find?_eq_none.mp missing other
            (List.mem_reverse.mpr (List.mem_map_of_mem further))
          exact absurd asked refused
    · rintro ⟨time, member, asks, latest⟩
      rcases List.mem_cons.mp member with rfl | further
      · refine .inr ⟨List.find?_eq_none.mpr fun other listed asked => ?_, by simp [asks]⟩
        obtain ⟨⟨later, _⟩, inside, rfl⟩ := List.mem_map.mp (List.mem_reverse.mp listed)
        have bound := latest later _ (List.mem_cons_of_mem _ inside) asked
        have passed := before _ inside
        exact absurd bound (Nat.not_le_of_lt passed)
      · exact .inl ⟨time, further, asks, fun later other listed =>
          latest later other (List.mem_cons_of_mem _ listed)⟩

/-- The order of time decides everything that a registry can be asked. -/
theorem recorded_of_dated {history : List Grammar} {registry : Registry}
    {dated : List (Nat × Grammar)} (dates : Dated history dated)
    (listed : registry.grammars = dated.map Prod.snd) : Recorded history registry := by
  have names : registry.grammars.map Grammar.name = dated.map fun entry => entry.2.name := by
    rw [listed, List.map_map]
    rfl
  have distinct : (registry.grammars.map Grammar.name).Nodup := by
    rw [names]
    refine List.pairwise_map.mpr (List.Pairwise.imp_of_mem ?_ dates.ordered)
    intro earlier later former latter passed same
    exact ((dates.mem_iff _ _).mp former).last _ _ passed
      ((dates.mem_iff _ _).mp latter).registered same.symm
  have named (name : String) :
      name ∈ registry.grammars.map Grammar.name ↔ name ∈ history.map Grammar.name := by
    rw [names]
    constructor
    · intro member
      obtain ⟨⟨time, grammar⟩, inside, rfl⟩ := List.mem_map.mp member
      exact List.mem_map_of_mem
        (List.mem_of_getElem? ((dates.mem_iff _ _).mp inside).registered)
    · intro known
      obtain ⟨time, grammar, last, rfl⟩ := exists_last known
      exact List.mem_map.mpr ⟨(time, grammar), (dates.mem_iff _ _).mpr last, rfl⟩
  have looked (asked : Grammar → Bool) (condition : Grammar → Prop)
      (same : ∀ grammar, asked grammar ↔ condition grammar) (grammar : Grammar) :
      registry.grammars.reverse.find? asked = some grammar ↔ Latest history condition grammar := by
    rw [listed, find_reverse_dated dates.ordered]
    simp only [dates.mem_iff, same, Latest]
  refine ⟨⟨dated, dates, listed⟩, distinct, named, ?_, fun grammar => ?_, ?_, ?_⟩
  · rw [← List.length_map Grammar.name]
    refine List.Perm.length_eq ((List.perm_ext_iff_of_nodup distinct (List.nodup_dedup _)).mpr ?_)
    intro name
    rw [List.mem_dedup, named]
  · rw [registration]
    have present : (registry.grammars.any fun existing => existing.name = grammar.name) = true ↔
        grammar.name ∈ history.map Grammar.name := by
      rw [← named]
      simp [List.any_eq_true, List.mem_map]
    simp only [present]
  · exact fun name => looked _ _ fun _ => Iff.rfl
  · intro extension
    exact looked _ _ fun grammar => by simp [List.any_eq_true]

/-- A registry that began empty is what is left of the calls. -/
theorem recorded_from_empty (calls : List Grammar) : Recorded calls (empty.registerAll calls) := by
  obtain ⟨dated, dates, listed⟩ := dated_register ⟨[], dated_nil, rfl⟩ calls
  exact recorded_of_dated dates listed

/-- A registry that began empty, and one that began with the grammar that is known without a
description, are after any calls what is left of their histories. -/
theorem calls_recorded (calls : List Grammar) :
    Recorded calls (empty.registerAll calls) ∧
      Recorded (Grammar.dart :: calls) (standard.registerAll calls) :=
  ⟨recorded_from_empty calls, recorded_from_empty (Grammar.dart :: calls)⟩

end Highlighter.Registry

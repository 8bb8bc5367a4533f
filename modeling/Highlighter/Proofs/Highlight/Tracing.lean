import Highlighter.Proofs.Highlight.Rewriting
import Highlighter.Proofs.Markup.Seaming

/-!
# Runs over text whose characters carry their numbers

The characters of a text can carry their numbers through the passes of a run, as far as they
come from the text; markup carries none. So it can be said of a match of a later pass which
characters of the text it consists of, and what of it is markup.

The traced text belongs to the pieces of the annotated text: a pass marks both in the same places.
`Passed` collects what one pass does to them, and `Chained` what passes do one after the other.
-/

namespace Highlighter

open Text (Cursor)
open Regex (Expr Found Hits)
open Markup

/-- What the pattern finds in a text: nothing if it does not compile, or if a search is given up. -/
def Pattern.scan? (pattern : Pattern) (text : List Char) : Option Regex.Scan :=
  match pattern.compile (Pattern.searchLimit (String.ofList text)) with
  | .error _ => none
  | .ok regex =>
    let scan := regex.scan text
    if scan.problem.isNone then some scan else none

/-- What the entries of a plan make of a traced text, up to the first that fails. -/
def traceThrough (markup : Markup) :
    List (Category × Option Pattern) → List Traced → List Traced
  | [], traced => traced
  | (category, entry) :: others, traced =>
    match Highlight.active? entry with
    | none => traceThrough markup others traced
    | some pattern =>
      match pattern.scan? (traced.map Prod.fst) with
      | none => traced
      | some scan => traceThrough markup others ((Layer.ofScan category scan).trace markup traced)

/-- The matches of an entry of a plan in a traced text. -/
def matchesIn (entry : Option Pattern) (traced : List Traced) : List (List Traced) :=
  match (Highlight.active? entry).bind fun pattern => pattern.scan? (traced.map Prod.fst) with
  | none => []
  | some scan => Found.pieces scan.found traced

/-! ### Traced text and the runs over the text -/

/-- The characters of a numbered text are those of the text. -/
theorem map_numbered (text : List Char) : (numbered text).map Prod.fst = text := by
  simp [numbered, Function.comp_def]

/-- All characters of a numbered text have numbers. -/
theorem filter_numbered (text : List Char) :
    (numbered text).filter (·.2.isSome) = numbered text := by
  rw [List.filter_eq_self]
  intro entry listed
  obtain ⟨_, _, rfl⟩ := List.mem_map.mp listed
  rfl

namespace Highlight

/-- A traced text becomes what the passes make of the text, and keeps the characters that have
numbers, whether the run fails or not.

Proof: induction over the plan. -/
theorem trace_through_passes (markup : Markup) (plan : List (Category × Option Pattern))
    {content : String} {traced : List Traced} (shown : traced.map Prod.fst = content.toList) :
    (traceThrough markup plan traced).map Prod.fst = (passes markup plan content).content.toList ∧
      (traceThrough markup plan traced).filter (·.2.isSome) = traced.filter (·.2.isSome) := by
  induction plan generalizing content traced with
  | nil => exact ⟨shown, rfl⟩
  | cons head others induction =>
    obtain ⟨category, entry⟩ := head
    rcases passes_head markup (category, entry) content with
      ⟨first, settles, begun⟩ | ⟨pattern, error, same, present, fails, refused⟩
    · rw [begun, RunOn.and_then_completed settles.error_none]
      cases settles with
      | skipped absent =>
        simp only [traceThrough, absent]
        exact induction shown
      | @completed _ pattern regex present compiled ended =>
        rw [Content.text_string] at compiled ended ⊢
        have found : pattern.scan? (traced.map Prod.fst) = some (regex.scan content.toList) := by
          simp only [Pattern.scan?, shown, String.ofList_toList, compiled, ended, Option.isNone_none,
            ↓reduceIte]
        simp only [traceThrough, active_some_iff.mpr ⟨rfl, present⟩, found]
        have covered : ((Layer.ofScan category (regex.scan content.toList)).trace markup traced).map
            Prod.fst = (RunOn.ofPass category content
              (String.ofList ((regex.scan content.toList).withMarkup markup category))
              (regex.scan content.toList).marked.length).content.toList := by
          have source : (Layer.ofScan category (regex.scan content.toList)).source =
              content.toList := by
            rw [Layer.source_of_scan, Regex.scan_text]
          rw [Layer.trace_text _ (shown.trans source.symm), RunOn.ofPass]
          split
          · rename_i unmarked
            rw [← Layer.count_of_scan category] at unmarked
            exact (Stretch.written_of_count_zero markup category unmarked).trans source
          · rw [Layer.written_of_scan, Content.replace_string, String.toList_ofList]
        obtain ⟨text, numbers⟩ := induction covered
        exact ⟨text, numbers.trans (Layer.trace_numbers _ markup traced)⟩
    · obtain ⟨_, rfl⟩ := Prod.mk.inj same
      have missing : pattern.scan? (traced.map Prod.fst) = none := by
        rw [Pattern.scan?, shown, String.ofList_toList]
        cases (show Fails category pattern content error from fails) with
        | invalidPattern uncompiled => simp only [uncompiled]
        | matchFailed compiled givenUp =>
          simp only [compiled, givenUp, Option.isNone_some, Bool.false_eq_true, ↓reduceIte]
      rw [refused]
      simp only [traceThrough, active_some_iff.mpr ⟨rfl, present⟩, missing]
      exact ⟨shown, trivial⟩

end Highlight

/-! ### Traced text and pieces -/

/-- The traced text belongs to the pieces: the characters that have numbers are those of the
source, each with its number. -/
structure Traces (source : List Char) (tokens : List Token) (traced : List Traced) : Prop where
  orderly : Orderly false tokens
  sourced : written (sources tokens) = source
  flags : traced.map (fun entry => (entry.1, entry.2.isSome)) = flagged tokens
  numbers : traced.filter (·.2.isSome) = numbered source

namespace Traces

variable {source : List Char} {tokens : List Token} {traced : List Traced}

/-- The pieces make up the characters of the traced text. -/
theorem annotates (traces : Traces source tokens traced) :
    Annotates tokens source (traced.map Prod.fst) := by
  refine ⟨traces.orderly, ?_, traces.sourced⟩
  rw [← map_flagged, ← traces.flags, List.map_map]
  rfl

/-- The text of a page, before any pass. -/
theorem of_text (text : String) :
    Traces (Entity.escapeText text).toList (text.toList.map Token.source)
      (numbered (Entity.escapeText text).toList) := by
  have same := written_source text
  refine ⟨orderly_source _, by rw [sources_source, same], ?_, filter_numbered _⟩
  rw [← same]
  have flags (characters : List Char) : flagged (characters.map Token.source) =
      (written (characters.map Token.source)).map (·, true) := by
    rw [flagged, written, List.map_flatMap, List.flatMap_map, List.flatMap_map]
    rfl
  rw [flags, numbered, List.map_map]
  have plain : ((fun entry : Traced => (entry.1, entry.2.isSome)) ∘
      fun entry : Char × Nat => (entry.1, some entry.2)) = (·, true) ∘ Prod.fst := rfl
  rw [plain, ← List.map_map, List.zipIdx_map_fst]

/-- Of so many characters, those that have numbers are counted. -/
theorem count_eq (traces : Traces source tokens traced) (index : Nat) :
    sourceCount tokens index = (traced.take index).countP (·.2.isSome) := by
  rw [sourceCount, ← traces.flags, ← List.map_take, List.countP_map]
  rfl

/-- Without markup, a part of the traced text is a part of the source. -/
theorem piece (traces : Traces source tokens traced) {first last : Nat} (inOrder : first ≤ last) :
    ((traced.drop first).take (last - first)).filter (·.2.isSome) =
      ((numbered source).drop (sourceCount tokens first)).take
        (sourceCount tokens last - sourceCount tokens first) := by
  have before : ((traced.take first).filter (·.2.isSome)).length = sourceCount tokens first := by
    rw [traces.count_eq, List.countP_eq_length_filter]
  have split : traced.filter (·.2.isSome) = (traced.take first).filter (·.2.isSome) ++
      (((traced.drop first).take (last - first)).filter (·.2.isSome) ++
        ((traced.drop first).drop (last - first)).filter (·.2.isSome)) := by
    rw [← List.filter_append, List.take_append_drop, ← List.filter_append, List.take_append_drop]
  have length : (((traced.drop first).take (last - first)).filter (·.2.isSome)).length =
      sourceCount tokens last - sourceCount tokens first := by
    have both : traced.take last = traced.take first ++ (traced.drop first).take (last - first) := by
      rw [← List.take_add, Nat.add_sub_cancel' inOrder]
    rw [traces.count_eq last, traces.count_eq first, both, List.countP_append,
      Nat.add_sub_cancel_left, List.countP_eq_length_filter]
  rw [← traces.numbers, split, ← length, ← before, List.drop_left, List.take_left]

/-- If all characters are counted, a part of the traced text consists of those that have numbers. -/
theorem piece_plain (traces : Traces source tokens traced) {first last : Nat}
    (inOrder : first ≤ last)
    (level : sourceCount tokens last = sourceCount tokens first + (last - first)) :
    ((traced.drop first).take (last - first)).filter (·.2.isSome) =
      (traced.drop first).take (last - first) := by
  refine List.filter_eq_self.mpr (List.countP_eq_length.mp ?_)
  have both : traced.take last = traced.take first ++ (traced.drop first).take (last - first) := by
    rw [← List.take_add, Nat.add_sub_cancel' inOrder]
  have counted := traces.count_eq last
  rw [both, List.countP_append, ← traces.count_eq first, level] at counted
  have bounded := List.length_take_le (last - first) (traced.drop first)
  have enough : ((traced.drop first).take (last - first)).countP (·.2.isSome) ≤
      ((traced.drop first).take (last - first)).length := List.countP_le_length
  omega

end Traces

/-- A pattern that completes on a text finds in it what its expression matches there. -/
theorem Pattern.ReadAs.scan_some {pattern : Pattern} {expression : Expr}
    (reads : pattern.ReadAs expression) (consumes : 0 < expression.minimalLength)
    {text : List Char} (completes : Highlight.Completes pattern (String.ofList text)) :
    ∃ hits found rest, pattern.scan? text = some ⟨found, rest, none⟩ ∧
      Hits expression (Cursor.start text) hits found rest := by
  obtain ⟨regex, compiled, ended⟩ := completes
  rw [String.toList_ofList] at ended
  obtain ⟨hits, scanned⟩ := Regex.scan_hits (reads.stands compiled) consumes text ended
  refine ⟨hits, _, _, ?_, scanned⟩
  simp only [Pattern.scan?, compiled, ended, Option.isNone_none, ↓reduceIte]
  rw [← ended]

/-- A pattern that finds something in a text, if only nothing, completes there. -/
theorem Pattern.completes_of_scan {pattern : Pattern} {text : List Char}
    (scanned : (pattern.scan? text).isSome) : Highlight.Completes pattern (String.ofList text) := by
  unfold Pattern.scan? at scanned
  cases compiled : pattern.compile (Pattern.searchLimit (String.ofList text)) with
  | error problem =>
    rw [compiled] at scanned
    cases scanned
  | ok regex =>
    refine ⟨regex, compiled, ?_⟩
    rw [String.toList_ofList]
    cases ended : (regex.scan text).problem with
    | none => rfl
    | some problem => simp [compiled, ended] at scanned

/-- What is found in a traced text lies under the matches of the expression. -/
theorem exists_matches {entry : Category × Option Pattern} {part : Category × Expr}
    (reads : Grammar.ReadAs entry part) (consumes : 0 < part.2.minimalLength)
    {traced : List Traced} {text : List Char} (shown : traced.map Prod.fst = text)
    (completes : ∀ pattern, entry.2 = some pattern →
      Highlight.Completes pattern (String.ofList text)) :
    ∃ hits found rest, Hits part.2 (Cursor.start text) hits found rest ∧
      matchesIn entry.2 traced =
        hits.map fun hit => (traced.drop hit.1.index).take (hit.2.index - hit.1.index) := by
  subst shown
  obtain ⟨category, entry⟩ := entry
  obtain ⟨_, pattern, rfl, present, means⟩ := reads
  obtain ⟨hits, found, rest, scan, scanned⟩ :=
    means.scan_some consumes (completes pattern rfl)
  refine ⟨hits, found, rest, scanned, ?_⟩
  simp only [matchesIn, Highlight.active_some_iff.mpr ⟨rfl, present⟩, Option.bind_some, scan]
  exact scanned.pieces_eq means.tame traced

/-- If an expression matches in the traced text where it matches in the source, as far as the
matches there are kept, what it finds there without the markup is what it finds in the source. -/
theorem Traces.mirrored {source : List Char} {tokens : List Token} {traced : List Traced}
    (traces : Traces source tokens traced) {expression : Expr} (tame : expression.tame)
    {kept : Cursor source → Prop} [DecidablePred kept]
    {hits : List (Cursor source × Cursor source)} {entries : List Found} {final : List Char}
    (original : Hits expression (Cursor.start source) hits entries final)
    (mirrors : Regex.Mirrors expression (traced.map Prod.fst) (sourceCount tokens) kept hits)
    {copies : List (Cursor (traced.map Prod.fst) × Cursor (traced.map Prod.fst))}
    {found : List Found} {rest : List Char}
    (scanned : Hits expression (Cursor.start (traced.map Prod.fst)) copies found rest) :
    (copies.map fun copy =>
        ((traced.drop copy.1.index).take (copy.2.index - copy.1.index)).filter (·.2.isSome)) =
      (hits.filter fun hit => kept hit.1).map fun hit =>
        ((numbered source).drop hit.1.index).take (hit.2.index - hit.1.index) := by
  have level : ∀ first last : Cursor (traced.map Prod.fst),
      (expression.ends first).head? = some last →
        ((Cursor.start (traced.map Prod.fst)).index ≤ first.index ↔
          (Cursor.start source).index ≤ sourceCount tokens first.index) :=
    fun _ _ _ => ⟨fun _ => Nat.zero_le _, fun _ => Nat.zero_le _⟩
  have inOrder : ∀ copy ∈ copies, copy.1.index ≤ copy.2.index :=
    fun copy listed => (scanned.preferred tame copy listed).2.2
  have pairs := (List.forall₂_and_left _ _).mpr ⟨inOrder, mirrors.scans tame original scanned level⟩
  rw [← List.forall₂_eq_eq_eq, List.forall₂_map_left_iff, List.forall₂_map_right_iff]
  refine pairs.imp fun copy hit both => ?_
  obtain ⟨ordered, begins, ends⟩ := both
  rw [traces.piece ordered, begins, ends]

/-! ### Passes over traced text -/

/-- A pass of the expression has marked what it has found in the traced text, both there and among
the pieces. -/
structure Passed (source : List Char) (category : Category) (expression : Expr)
    (tokens result : List Token) (traced marked : List Traced) (found : List Found)
    (hits : List (Cursor (traced.map Prod.fst) × Cursor (traced.map Prod.fst))) : Prop where
  scanned : ∃ rest, Hits expression (Cursor.start (traced.map Prod.fst)) hits found rest ∧
    marked.map Prod.fst = marking Markup.html category found rest
  before : Traces source tokens traced
  after : Traces source result marked
  edges : ∀ seam, seam ∈ seams 0 result ↔ seam ∈ seams 0 tokens ∨
    ∃ hit ∈ hits, seam = sourceCount tokens hit.1.index ∨ seam = sourceCount tokens hit.2.index
  names : ∀ other, result.count (.name other) =
    tokens.count (.name other) + if category = other then hits.length else 0

/-- Passes of the expressions have marked what they have found, one after the other, and have told
of it. -/
inductive Chained (source : List Char) : List (Category × Expr) → List Token → List Traced →
    List Token → List Traced → List Message → Prop where
  | done {tokens : List Token} {traced : List Traced} (traces : Traces source tokens traced) :
      Chained source [] tokens traced tokens traced []
  | pass {category : Category} {expression : Expr} {parts : List (Category × Expr)}
      {tokens middle result : List Token} {traced marked final : List Traced}
      {found : List Found}
      {hits : List (Cursor (traced.map Prod.fst) × Cursor (traced.map Prod.fst))}
      {log : List Message}
      (first : Passed source category expression tokens middle traced marked found hits)
      (others : Chained source parts middle marked result final log) :
      Chained source ((category, expression) :: parts) tokens traced result final
        (.passed category found.length :: log)

/-- The pieces behind all passes belong to the traced text behind them. -/
theorem Chained.traces {source : List Char} {parts : List (Category × Expr)}
    {tokens result : List Token} {traced final : List Traced} {log : List Message}
    (chained : Chained source parts tokens traced result final log) :
    Traces source result final := by
  induction chained with
  | done traces => exact traces
  | pass _ _ induction => exact induction

/-- The first of several passes leaves its pieces to the others. -/
theorem Chained.of_cons {source : List Char} {category : Category} {expression : Expr}
    {parts : List (Category × Expr)} {tokens result : List Token} {traced final : List Traced}
    {log : List Message}
    (chained : Chained source ((category, expression) :: parts) tokens traced result final log) :
    ∃ middle marked found hits told,
      Passed source category expression tokens middle traced marked found hits ∧
      Chained source parts middle marked result final told ∧
      log = .passed category found.length :: told := by
  cases chained with
  | pass first others => exact ⟨_, _, _, _, _, first, others, rfl⟩

/-- Passes over the traced text rewrite its characters, and tell what a run tells. -/
theorem Chained.rewritten {source : List Char} {parts : List (Category × Expr)}
    {tokens result : List Token} {traced final : List Traced} {log : List Message}
    (chained : Chained source parts tokens traced result final log) :
    Rewritten Markup.html parts (traced.map Prod.fst) (final.map Prod.fst) log := by
  induction chained with
  | done traces => exact .done _
  | pass first _ induction =>
    obtain ⟨rest, scanned, written⟩ := first.scanned
    rw [written] at induction
    exact .pass scanned induction

/-- The pieces of a traced text, and those that marking the matches of an expression makes of
them. -/
theorem exists_passed {source : List Char} (category : Category) {expression : Expr}
    {neat : List Char → Prop} (spares : Spares neat expression) {tokens : List Token}
    {traced : List Traced} (traces : Traces source tokens traced)
    {hits : List (Cursor (traced.map Prod.fst) × Cursor (traced.map Prod.fst))}
    {found : List Found} {rest : List Char}
    (scanned : Hits expression (Cursor.start (traced.map Prod.fst)) hits found rest) :
    ∃ result, Passed source category expression tokens result traced
      ((Layer.ofScan category ⟨found, rest, none⟩).trace Markup.html traced) found hits := by
  have annotates := traces.annotates
  obtain ⟨result, wrapped, flags, edges, names⟩ :=
    hits_wrapped spares category scanned (False.elim : False → _) [] rfl traces.orderly annotates.same
  have marks : ((Layer.ofScan category ⟨found, rest, none⟩).trace Markup.html traced).map
      (fun entry => (entry.1, entry.2.isSome)) = flagged result := by
    rw [Layer.trace, Stretch.map_cover, traces.flags, ← flags]
    simp [Function.comp_def, Layer.ofScan]
  have text : ((Layer.ofScan category ⟨found, rest, none⟩).trace Markup.html traced).map Prod.fst =
      marking Markup.html category found rest := by
    have characters := written_of_cover
      ((scanned.text_after spares.tame).trans annotates.same.symm) flags
    rw [← characters, ← map_flagged, ← marks, List.map_map]
    rfl
  refine ⟨result, ⟨rest, scanned, text⟩, traces, ⟨wrapped.orderly, ?_, marks, ?_⟩, edges, names⟩
  · rw [wrapped.sources_eq, traces.sourced]
  · rw [Layer.trace_numbers, traces.numbers]

/-- Passes that complete go on from pieces to pieces.

Proof: induction over the plan. -/
theorem exists_chained {source : List Char} {plan : List (Category × Option Pattern)}
    {parts : List (Category × Expr)} (reads : List.Forall₂ Grammar.ReadAs plan parts)
    (spares : ∀ part ∈ parts, ∃ neat, Spares neat part.2) {tokens : List Token}
    {traced : List Traced} (traces : Traces source tokens traced) {content : String}
    (shown : traced.map Prod.fst = content.toList)
    (completes : (Highlight.passes Markup.html plan content).error = none) :
    ∃ result log,
      Chained source parts tokens traced result (traceThrough Markup.html plan traced) log := by
  induction reads generalizing tokens traced content with
  | nil => exact ⟨tokens, [], .done traces⟩
  | @cons entry part plan parts same others induction =>
    obtain ⟨category, entry⟩ := entry
    obtain ⟨_, expression⟩ := part
    obtain ⟨rfl, pattern, rfl, present, means⟩ := same
    obtain ⟨neat, spared⟩ := spares _ List.mem_cons_self
    rcases Highlight.passes_head Markup.html (category, some pattern) content with
      ⟨first, settles, begun⟩ | ⟨_, error, _, _, _, failed⟩
    · rw [begun, RunOn.and_then_completed settles.error_none] at completes
      have ended : Highlight.Completes pattern (String.ofList (traced.map Prod.fst)) := by
        rw [shown, String.ofList_toList]
        exact settles.completes present
      obtain ⟨hits, found, rest, scan, scanned⟩ := means.scan_some spared.consumes ended
      obtain ⟨middle, passed⟩ := exists_passed category spared traces scanned
      have rewrites : ∃ hits found rest,
          Hits expression (Cursor.start (traced.map Prod.fst)) hits found rest ∧
            first.content.toList = marking Markup.html category found rest ∧
            first.log = [.passed category found.length] := by
        rw [shown]
        exact settles.rewrites means spared.consumes present
      obtain ⟨_, _, _, rescanned, written, _⟩ := rewrites
      obtain ⟨_, again, marked⟩ := passed.scanned
      obtain ⟨_, rfl, rfl⟩ := again.unique rescanned
      obtain ⟨result, log, chained⟩ := induction
        (fun other listed => spares other (List.mem_cons_of_mem _ listed)) passed.after
        (marked.trans written.symm) completes
      refine ⟨result, .passed category found.length :: log, ?_⟩
      rw [traceThrough]
      simp only [Highlight.active_some_iff.mpr ⟨rfl, present⟩, scan]
      exact .pass passed chained
    · rw [failed] at completes
      cases completes

end Highlighter

import Highlighter.Proofs.Highlight.Passes
import Highlighter.Proofs.Regex.Scan
import Highlighter.Proofs.Text.Bytes

/-!
# A run lays markup over the text and changes nothing else

A pass that has completed is a `Layer`: its text cut into stretches, some of them marked.
A run is a stack of layers, each on the text that the one below has written. A layer is
laid over any sequence of the right length by the lengths of its stretches alone, so a
text whose characters carry their numbers can go through the run in place of the text
itself; where they come out says what has happened to each of them.

The marked stretches are the matches that have characters, as the matcher has reported
them. Which matches a pattern has is not considered here.
-/

namespace Highlighter

open Text (byteLength)

/-- A part of the text under a pass. -/
inductive Stretch where
  | plain (text : List Char)
  | marked (text : List Char)

namespace Stretch

/-- The text of a stretch. -/
def text : Stretch → List Char
  | plain text | marked text => text

/-- A stretch as the pass writes it. -/
def written (markup : Markup) (category : Category) : Stretch → List Char
  | plain text => text
  | marked text => markup.wrap category text

/-- How many stretches are marked. -/
def count : List Stretch → Nat
  | [] => 0
  | plain _ :: others => count others
  | marked _ :: others => count others + 1

/-- The byte positions of begin and end of the marked stretches. -/
def spans (offset : Nat) : List Stretch → List (Nat × Nat)
  | [] => []
  | plain text :: others => spans (offset + byteLength text) others
  | marked text :: others =>
    (offset, offset + byteLength text) :: spans (offset + byteLength text) others

/-- Put something before and something behind each marked stretch of a sequence. -/
def cover {Item : Type} (before behind : List Item) : List Stretch → List Item → List Item
  | [], items => items
  | plain text :: others, items =>
    items.take text.length ++ cover before behind others (items.drop text.length)
  | marked text :: others, items =>
    before ++ items.take text.length ++ behind ++
      cover before behind others (items.drop text.length)

/-- Take away again so many items before and behind each marked stretch. -/
def uncover {Item : Type} (before behind : Nat) : List Stretch → List Item → List Item
  | [], items => items
  | plain text :: others, items =>
    items.take text.length ++ uncover before behind others (items.drop text.length)
  | marked text :: others, items =>
    (items.drop before).take text.length ++
      uncover before behind others (items.drop (before + text.length + behind))

/-- The text of all the stretches has been covered if each is written on its own. -/
theorem cover_text (markup : Markup) (category : Category) (stretches : List Stretch) :
    cover (markup.opened category) markup.closing.toList stretches (stretches.flatMap text) =
      stretches.flatMap (written markup category) := by
  induction stretches with
  | nil => rfl
  | cons stretch others induction =>
    cases stretch <;> simp [cover, text, written, Markup.wrap, induction]

/-- Without a marked stretch the text is written as it is. -/
theorem written_of_count_zero (markup : Markup) (category : Category) {stretches : List Stretch}
    (none : count stretches = 0) :
    stretches.flatMap (written markup category) = stretches.flatMap text := by
  induction stretches with
  | nil => rfl
  | cons stretch others induction =>
    cases stretch with
    | plain passed => simp [written, text, induction (by simpa [count] using none)]
    | marked matched => simp [count] at none

/-- What covering has added is taken away again, whatever it was. -/
theorem uncover_cover {Item : Type} (before behind : List Item) (stretches : List Stretch)
    (items : List Item) (enough : (stretches.flatMap text).length ≤ items.length) :
    uncover before.length behind.length stretches (cover before behind stretches items) =
      items := by
  induction stretches generalizing items with
  | nil => rfl
  | cons stretch others induction =>
    have fits : stretch.text.length ≤ items.length ∧
        (others.flatMap text).length ≤ (items.drop stretch.text.length).length := by
      simp only [List.flatMap_cons, List.length_append] at enough
      simp only [List.length_drop]
      omega
    have taken : (items.take stretch.text.length).length = stretch.text.length := by
      rw [List.length_take]
      omega
    have restored := induction _ fits.2
    cases stretch with
    | plain passed =>
      simp only [text] at taken restored
      rw [cover, uncover, List.take_left' taken, List.drop_left' taken, restored,
        List.take_append_drop]
    | marked matched =>
      simp only [text] at taken restored
      have behindAll : (before ++ items.take matched.length ++ behind).length =
          before.length + matched.length + behind.length := by
        simp only [List.length_append, taken]
      rw [cover, uncover, List.drop_left' behindAll, restored, List.append_assoc,
        List.append_assoc, List.drop_left, List.take_left' taken, List.take_append_drop]

/-- Covering does not look at the items. -/
theorem map_cover {Item Other : Type} (read : Item → Other) (before behind : List Item)
    (stretches : List Stretch) (items : List Item) :
    (cover before behind stretches items).map read =
      cover (before.map read) (behind.map read) stretches (items.map read) := by
  induction stretches generalizing items with
  | nil => rfl
  | cons stretch others induction => cases stretch <;> simp [cover, induction]

/-- Covering keeps all items, once and in order, besides those it adds. -/
theorem filter_cover {Item : Type} (kept : Item → Bool) {before behind : List Item}
    (beforeAdded : before.filter kept = []) (behindAdded : behind.filter kept = [])
    (stretches : List Stretch) (items : List Item) :
    (cover before behind stretches items).filter kept = items.filter kept := by
  induction stretches generalizing items with
  | nil => rfl
  | cons stretch others induction =>
    have split (count : Nat) :
        (items.take count).filter kept ++ (items.drop count).filter kept =
          items.filter kept := by
      rw [← List.filter_append, List.take_append_drop]
    cases stretch with
    | plain passed => rw [cover, List.filter_append, induction, split]
    | marked matched =>
      simp only [cover, List.filter_append, beforeAdded, behindAdded, induction,
        List.nil_append, List.append_nil, split]

end Stretch

/-- A character with its number in the text before the run. Markup has no number. -/
abbrev Traced := Char × Option Nat

/-- A completed pass: its category, and how it cut the text that it was applied to. -/
structure Layer where
  category : Category
  stretches : List Stretch

namespace Layer

/-- The text that the pass was applied to. -/
def source (layer : Layer) : List Char := layer.stretches.flatMap Stretch.text

/-- The text that the pass has left. -/
def written (layer : Layer) (markup : Markup) : List Char :=
  layer.stretches.flatMap (Stretch.written markup layer.category)

/-- How many matches the pass has marked. -/
def count (layer : Layer) : Nat := Stretch.count layer.stretches

/-- The byte positions of the marked matches in the text the pass was applied to. -/
def spans (layer : Layer) : List (Nat × Nat) := Stretch.spans 0 layer.stretches

/-- A text without the markup of the layer. -/
def remove (layer : Layer) (markup : Markup) (text : List Char) : List Char :=
  Stretch.uncover (markup.opened layer.category).length markup.closing.toList.length
    layer.stretches text

/-- A traced text with the markup of the layer. -/
def trace (layer : Layer) (markup : Markup) (traced : List Traced) : List Traced :=
  Stretch.cover ((markup.opened layer.category).map (·, none))
    (markup.closing.toList.map (·, none)) layer.stretches traced

end Layer

namespace Layer

/-- A text under a layer becomes what the pass writes, whatever is traced with it. -/
theorem trace_text (layer : Layer) {markup : Markup} {traced : List Traced}
    (shown : traced.map Prod.fst = layer.source) :
    (layer.trace markup traced).map Prod.fst = layer.written markup := by
  rw [trace, Stretch.map_cover, shown, written, ← Stretch.cover_text, source]
  simp [Function.comp_def]

/-- A layer keeps the characters that have numbers. -/
theorem trace_numbers (layer : Layer) (markup : Markup) (traced : List Traced) :
    (layer.trace markup traced).filter (·.2.isSome) = traced.filter (·.2.isSome) := by
  rw [trace, Stretch.filter_cover] <;> simp

end Layer

/-- The characters of a text with their numbers. -/
def numbered (text : List Char) : List Traced :=
  text.zipIdx.map fun entry => (entry.1, some entry.2)

/-- The layers lie one upon the other, each on the text that the one below has written. -/
inductive Stacked (markup : Markup) : List Char → List Layer → List Char → Prop where
  | bare (text : List Char) : Stacked markup text [] text
  | under (layer : Layer) {others : List Layer} {final : List Char}
      (upon : Stacked markup (layer.written markup) others final) :
      Stacked markup layer.source (layer :: others) final

/-- Removing the layers, the last first, restores the text below them. -/
theorem Stacked.restored {markup : Markup} {text final : List Char} {layers : List Layer}
    (stacked : Stacked markup text layers final) :
    layers.foldr (fun layer rest => layer.remove markup rest) final = text := by
  induction stacked with
  | bare text => rfl
  | under layer upon induction =>
    rw [List.foldr_cons, induction, Layer.written, ← Stretch.cover_text, Layer.remove,
      Stretch.uncover_cover _ _ _ _ (Nat.le_refl _), Layer.source]

/-- A traced text goes through the layers as the text does, and what comes from the text
comes out as it went in. -/
theorem Stacked.traced {markup : Markup} {text final : List Char} {layers : List Layer}
    (stacked : Stacked markup text layers final) (traced : List Traced)
    (shown : traced.map Prod.fst = text) :
    (layers.foldl (fun below layer => layer.trace markup below) traced).map Prod.fst = final ∧
      (layers.foldl (fun below layer => layer.trace markup below) traced).filter
        (·.2.isSome) = traced.filter (·.2.isSome) := by
  induction stacked generalizing traced with
  | bare text => exact ⟨shown, rfl⟩
  | under layer upon induction =>
    obtain ⟨final, kept⟩ := induction _ (layer.trace_text shown)
    exact ⟨final, kept.trans (layer.trace_numbers markup traced)⟩

/-- The stretches that a match adds to a layer: what was passed over, and the match unless
it is empty. -/
def Regex.Found.stretches (found : Regex.Found) : List Stretch :=
  if found.matched.isEmpty then [.plain found.gap] else [.plain found.gap, .marked found.matched]

/-- The layer of a pass that marks what a scan has found. -/
def Layer.ofScan (category : Category) (scan : Regex.Scan) : Layer :=
  ⟨category, scan.found.flatMap Regex.Found.stretches ++ [.plain scan.rest]⟩

namespace Layer

/-- A layer lies on the text that was scanned. -/
theorem source_of_scan (category : Category) (scan : Regex.Scan) :
    (ofScan category scan).source = scan.text := by
  have entry (found : Regex.Found) : found.stretches.flatMap Stretch.text = found.text := by
    unfold Regex.Found.stretches
    split <;> simp_all [Stretch.text, Regex.Found.text]
  simp [source, ofScan, Regex.Scan.text, List.flatMap_assoc, entry, Stretch.text]

/-- A layer is written as the pass writes its matches. -/
theorem written_of_scan (markup : Markup) (category : Category) (scan : Regex.Scan) :
    (ofScan category scan).written markup = scan.withMarkup markup category := by
  have entry (found : Regex.Found) :
      found.stretches.flatMap (Stretch.written markup category) =
        found.gap ++
          if found.matched.isEmpty then [] else markup.wrap category found.matched := by
    unfold Regex.Found.stretches
    split <;> simp [Stretch.written]
  simp [written, ofScan, Regex.Scan.withMarkup, List.flatMap_assoc, entry, Stretch.written]

/-- A layer marks as many matches as the pass reports. -/
theorem count_of_scan (category : Category) (scan : Regex.Scan) :
    (ofScan category scan).count = scan.marked.length := by
  obtain ⟨found, rest, problem⟩ := scan
  simp only [count, ofScan, Regex.Scan.marked]
  induction found with
  | nil => rfl
  | cons first others induction =>
    by_cases empty : first.matched.isEmpty <;>
      simp_all [Regex.Found.stretches, Stretch.count]

/-- A layer marks the matches that have characters, at the places the scan reports. -/
theorem spans_of_scan (category : Category) (scan : Regex.Scan) :
    (ofScan category scan).spans = scan.spans.filter fun span => span.1 ≠ span.2 := by
  obtain ⟨found, rest, problem⟩ := scan
  -- Induction over the matches, with the end of the last one and the spans seen so far.
  have collected (offset : Nat) (seen : List (Nat × Nat)) :
      seen.reverse.filter (fun span => span.1 ≠ span.2) ++
          Stretch.spans offset (found.flatMap Regex.Found.stretches ++ [.plain rest]) =
        (found.foldl (fun state found =>
          let first := state.1 + byteLength found.gap
          let last := first + byteLength found.matched
          (last, (first, last) :: state.2)) (offset, seen)).2.reverse.filter
            fun span => span.1 ≠ span.2 := by
    induction found generalizing offset seen with
    | nil => simp [Stretch.spans]
    | cons first others induction =>
      rw [List.foldl_cons, ← induction]
      by_cases empty : first.matched = []
      · simp [Regex.Found.stretches, empty, Stretch.spans, byteLength]
      · have filled := mt (Text.byte_length_eq_zero_iff first.matched).mp empty
        simp [Regex.Found.stretches, empty, Stretch.spans, filled]
  simpa [spans, ofScan, Regex.Scan.spans] using collected 0 []

end Layer

/-- What a message reports of a completed pass. -/
def Message.pass? : Message → Option (Category × Nat)
  | passed category count => some (category, count)
  | _ => none

/-- The entries of a plan that are applied, with their patterns. -/
def Highlight.applied (plan : List (Category × Option Pattern)) : List (Category × Pattern) :=
  plan.filterMap fun entry => (active? entry.2).map (entry.1, ·)

/-- The layer marks what the pattern of the entry matches in the layer's text, wherever the
match has characters, and bears the category of the entry. -/
def Layer.Marks (entry : Category × Pattern) (layer : Layer) : Prop :=
  layer.category = entry.1 ∧
    ∃ regex, entry.2.compile (Pattern.searchLimit (String.ofList layer.source)) = .ok regex ∧
      (regex.scan layer.source).problem = none ∧
      layer.spans = (regex.scan layer.source).spans.filter fun span => span.1 ≠ span.2

/-- The run has laid the layers over the content, and nothing else. -/
structure Overlaid (markup : Markup) (plan : List (Category × Option Pattern)) (content : String)
    (run : Run) (layers : List Layer) : Prop where
  /-- The layers lead from the content before the run to the content behind it. -/
  stacked : Stacked markup content.toList layers run.content.toList
  /-- There is one layer for each pass that the run reports, with as many wrappers. -/
  reported : layers.map (fun layer => (layer.category, layer.count)) = run.log.filterMap Message.pass?
  /-- The layers belong to the entries that are applied, in order: to all of them, or to
  those before the entry that failed. -/
  committed : ∃ done pending, Highlight.applied plan = done ++ pending ∧
    List.Forall₂ Layer.Marks done layers ∧
    match run.error with
    | none => pending = []
    | some error => ∃ pattern others, pending = (error.category, pattern) :: others
  /-- Removing the wrappers pass by pass, the last pass first, restores the content. -/
  restored : layers.foldr (fun layer rest => layer.remove markup rest) run.content.toList =
    content.toList
  /-- The characters of the result that are not markup are those of the content, each once
  and in order. -/
  kept : (layers.foldl (fun below layer => layer.trace markup below) (numbered content.toList)).map
      Prod.fst = run.content.toList ∧
    (layers.foldl (fun below layer => layer.trace markup below) (numbered content.toList)).filter
      (·.2.isSome) = numbered content.toList

namespace Highlight

/-- An entry that settles adds a layer if its pattern is applied, and nothing otherwise. -/
theorem Settles.layer {markup : Markup} {content : String} {head : Category × Option Pattern}
    {first : Run} (settles : Settles markup content head first) :
    (active? head.2 = none ∧ first.content = content ∧ first.log.filterMap Message.pass? = []) ∨
    ∃ pattern layer, active? head.2 = some pattern ∧ layer.source = content.toList ∧
      layer.written markup = first.content.toList ∧ Layer.Marks (head.1, pattern) layer ∧
      first.log.filterMap Message.pass? = [(layer.category, layer.count)] := by
  cases settles with
  | skipped absent => exact .inl ⟨absent, rfl, rfl⟩
  | @completed category pattern regex present compiled ended =>
    rw [Content.text_string] at compiled ended ⊢
    have scanned : (Layer.ofScan category (regex.scan content.toList)).source = content.toList := by
      rw [Layer.source_of_scan, Regex.scan_text]
    refine .inr ⟨pattern, Layer.ofScan category (regex.scan content.toList),
      active_some_iff.mpr ⟨rfl, present⟩, scanned, ?_, ⟨rfl, regex, ?_, ?_, ?_⟩, ?_⟩
    · rw [RunOn.ofPass]
      split
      · rename_i unmarked
        rw [← Layer.count_of_scan category] at unmarked
        exact (Stretch.written_of_count_zero markup category unmarked).trans scanned
      · rw [Layer.written_of_scan, Content.replace_string, String.toList_ofList]
    · simpa [scanned] using compiled
    · simpa [scanned] using ended
    · rw [Layer.spans_of_scan, scanned]
    · rw [Layer.count_of_scan, RunOn.ofPass]
      split <;> simp_all [Message.pass?, Layer.ofScan]

/-- An entry that is applied comes first among the entries that are. -/
theorem applied_cons {head : Category × Option Pattern} {pattern : Pattern}
    (active : active? head.2 = some pattern) (others : List (Category × Option Pattern)) :
    applied (head :: others) = (head.1, pattern) :: applied others := by
  simp [applied, active]

/-- An entry that is not applied does not count. -/
theorem applied_skip {head : Category × Option Pattern} (absent : active? head.2 = none)
    (others : List (Category × Option Pattern)) : applied (head :: others) = applied others := by
  simp [applied, absent]

/-- The stacking and the bookkeeping of a run make the rest of the law. -/
theorem overlaid_of_stacked {markup : Markup} {plan : List (Category × Option Pattern)}
    {content : String} {run : Run} {layers : List Layer}
    (stacked : Stacked markup content.toList layers run.content.toList)
    (reported : layers.map (fun layer => (layer.category, layer.count)) =
      run.log.filterMap Message.pass?)
    (committed : ∃ done pending, applied plan = done ++ pending ∧
      List.Forall₂ Layer.Marks done layers ∧
      match run.error with
      | none => pending = []
      | some error => ∃ pattern others, pending = (error.category, pattern) :: others) :
    Overlaid markup plan content run layers := by
  have shown : (numbered content.toList).map Prod.fst = content.toList := by
    simp [numbered, Function.comp_def]
  have numbers : (numbered content.toList).filter (·.2.isSome) = numbered content.toList := by
    rw [List.filter_eq_self]
    intro entry listed
    obtain ⟨_, _, rfl⟩ := List.mem_map.mp listed
    rfl
  obtain ⟨final, kept⟩ := stacked.traced _ shown
  exact ⟨stacked, reported, committed, stacked.restored, final, kept.trans numbers⟩

/-- A run lays one layer for each pass over the content.

Proof: induction over the plan. An entry that settles puts its layer under those of the
others, an entry that fails adds none. -/
theorem passes_overlay (markup : Markup) (plan : List (Category × Option Pattern))
    (content : String) : ∃ layers, Overlaid markup plan content (passes markup plan content) layers := by
  induction plan generalizing content with
  | nil => exact ⟨[], overlaid_of_stacked (.bare _) rfl ⟨[], [], rfl, .nil, rfl⟩⟩
  | cons head others induction =>
    rcases passes_head markup head content with
      ⟨first, settles, begun⟩ | ⟨pattern, error, rfl, present, fails, refused⟩
    · obtain ⟨layers, upon⟩ := induction first.content
      obtain ⟨done, pending, parts, marks, stopped⟩ := upon.committed
      rw [begun, RunOn.and_then_completed settles.error_none]
      rcases settles.layer with
        ⟨absent, same, silent⟩ | ⟨pattern, layer, active, source, written, marked, told⟩
      · refine ⟨layers, overlaid_of_stacked ?_ ?_ ⟨done, pending, ?_, marks, stopped⟩⟩
        · rw [← same]
          exact upon.stacked
        · rw [List.filterMap_append, silent, upon.reported, List.nil_append]
        · rw [applied_skip absent, parts]
      · refine ⟨layer :: layers, overlaid_of_stacked ?_ ?_
          ⟨(head.1, pattern) :: done, pending, ?_, .cons marked marks, stopped⟩⟩
        · rw [← source]
          exact .under layer (written ▸ upon.stacked)
        · rw [List.filterMap_append, told, List.map_cons, upon.reported, List.singleton_append]
        · rw [applied_cons active, parts, List.cons_append]
    · rw [refused]
      refine ⟨[], overlaid_of_stacked (.bare _) rfl ⟨[], _, rfl, .nil, pattern, applied others, ?_⟩⟩
      exact applied_cons (active_some_iff.mpr ⟨rfl, present⟩) others

end Highlight

/-- Whether a run succeeds or fails, it has laid markup over the content and has lost,
repeated and moved nothing. -/
theorem highlight_overlays (markup : Markup) (grammar : Grammar) (content : String) :
    ∃ layers, Overlaid markup grammar.plan content (highlightWith markup grammar content) layers :=
  Highlight.passes_overlay markup grammar.plan content

end Highlighter

import Highlighter.Proofs.Highlight.Layers
import Highlighter.Proofs.Markup.Seams
import Highlighter.Proofs.Regex.Hits

/-!
# What marking does to the pieces of a text

An expression spares the markup if its matches in orderly text begin between two pieces
outside of tags and end between two pieces. Marking such matches puts new pieces between
old ones: an opening tag outside of tags, and a closing tag outside or behind the quote of
an attribute. So the text stays orderly, and the old pieces stay as they are.

A tidy match also ends outside of tags. Then opening tags stay complete. Which matches of an
expression are tidy is shown for each of them by what its matches look like.
-/

namespace Highlighter.Markup

open Text (Cursor)
open Regex (Expr Found Hits)

/-- From the first place, where the pieces begin, to the last there are whole pieces. If the
stretch is tidy, the text is outside of tags behind it. -/
def Covers (tidy : Prop) {text : List Char} (first last : Cursor text) (tokens : List Token) :
    Prop :=
  ∃ covered latter middle, tokens = covered ++ latter ∧ written covered = first.slice last ∧
    written latter = last.after ∧ state? false covered = some middle ∧ Orderly middle latter ∧
    (tidy → middle = false)

/-- Matches of the expression in orderly text begin outside of tags between two pieces, and
end between two pieces. If the text of a match is tidy, these are outside of tags too. -/
structure Spares (tidy : List Char → Prop) (expression : Expr) : Prop where
  tame : expression.tame
  consumes : 0 < expression.minimalLength
  /-- No match begins at a guarded place. -/
  unguarded : ∀ {text : List Char} {first last : Cursor text} {former latter : List Token}
    {token : Token} {before behind : Bool} {passed ahead gap : List Char},
    (expression.ends first).head? = some last → Token.pass? before token = some behind →
    Orderly behind latter → Guarded former token passed ahead latter gap first.after → False
  /-- A match that begins outside of tags covers whole pieces. -/
  covers : ∀ {text : List Char} {first last : Cursor text} {tokens : List Token},
    (expression.ends first).head? = some last → Orderly false tokens →
    written tokens = first.after → Covers (tidy (first.slice last)) first last tokens

/-- What is covered tidily is covered. -/
theorem Covers.weaken {tidy weaker : Prop} {text : List Char} {first last : Cursor text}
    {tokens : List Token} (covers : Covers tidy first last tokens) (implied : weaker → tidy) :
    Covers weaker first last tokens := by
  obtain ⟨covered, latter, middle, split, matched, ended, reached, ordered, complete⟩ := covers
  exact ⟨covered, latter, middle, split, matched, ended, reached, ordered,
    fun weakly => complete (implied weakly)⟩

/-- Wherever a match begins in orderly text, it begins between two pieces outside of tags and
covers whole pieces. -/
theorem Spares.places {tidy : List Char → Prop} {expression : Expr} (spares : Spares tidy expression)
    {text : List Char} {first last : Cursor text} (preferred : (expression.ends first).head? = some last)
    {tokens : List Token} (orderly : Orderly false tokens) (same : written tokens = text) :
    ∃ former rest, tokens = former ++ rest ∧ written former = first.before.reverse ∧
      written rest = first.after ∧ state? false former = some false ∧ Orderly false rest ∧
      Covers (tidy (first.slice last)) first last rest := by
  rcases place_cases orderly (same.trans first.spans.symm) with
    ⟨former, rest, split, before, after, outside, ordered⟩ |
      ⟨_, _, _, _, _, _, _, _, _, passes, ordered, guarded⟩
  · exact ⟨former, rest, split, before, after, outside, ordered,
      spares.covers preferred ordered after⟩
  · exact (spares.unguarded preferred passes ordered guarded).elim

/-- Some stretches of the pieces have been put into tags of the category. The stretches begin
outside of tags, and in tidy text they end there. -/
inductive Wrapped (tidy : Prop) (category : Category) :
    Bool → List Token → List Token → Prop where
  | rest {inside : Bool} {tokens : List Token} (orderly : Orderly inside tokens) :
      Wrapped tidy category inside tokens tokens
  | wrap {inside middle : Bool} {gap covered latter result : List Token}
      (begun : state? inside gap = some false) (ended : state? false covered = some middle)
      (complete : tidy → middle = false)
      (others : Wrapped tidy category middle latter result) :
      Wrapped tidy category inside (gap ++ (covered ++ latter))
        (gap ++ .opening :: .name category :: (covered ++ .closing :: result))

/-- What has been wrapped is orderly. -/
theorem Wrapped.orderly {tidy : Prop} {category : Category} {inside : Bool}
    {tokens result : List Token} (wrapped : Wrapped tidy category inside tokens result) :
    Orderly inside result := by
  induction wrapped with
  | rest orderly => exact orderly
  | @wrap inside middle gap covered latter result begun ended complete others induction =>
    refine orderly_append_iff.mpr ⟨false, begun, ?_⟩
    refine orderly_cons_iff.mpr ⟨true, rfl, orderly_cons_iff.mpr ⟨false, rfl, ?_⟩⟩
    refine orderly_append_iff.mpr ⟨middle, ended, orderly_cons_iff.mpr ⟨middle, ?_, induction⟩⟩
    cases middle <;> rfl

/-- The text with markup around the matches that have characters. -/
def marking (markup : Markup) (category : Category) (found : List Found) (rest : List Char) :
    List Char :=
  (found.flatMap fun entry =>
    entry.gap ++ if entry.matched.isEmpty then [] else markup.wrap category entry.matched) ++ rest

/-- What is found first stands in front of the rest of the marked text. -/
theorem marking_cons (markup : Markup) (category : Category) (entry : Found)
    (others : List Found) (rest : List Char) :
    marking markup category (entry :: others) rest =
      entry.gap ++ ((if entry.matched.isEmpty then [] else markup.wrap category entry.matched) ++
        marking markup category others rest) := by
  simp [marking]

/-- The marked text from a match on that has characters. -/
theorem marking_filled (category : Category) {entry : Found}
    (filled : entry.matched.isEmpty = false) (others : List Found) (rest : List Char) :
    marking html category (entry :: others) rest =
      entry.gap ++ (html.opened category ++
        (entry.matched ++ (html.closing.toList ++ marking html category others rest))) := by
  simp only [marking_cons, filled, Bool.false_eq_true, ↓reduceIte, wrap, List.append_assoc]

/-- A match that has characters is marked between the matches before and behind it. -/
theorem marking_append (markup : Markup) (category : Category) {former latter : List Found}
    {entry : Found} (filled : entry.matched.isEmpty = false) (rest : List Char) :
    marking markup category (former ++ entry :: latter) rest =
      marking markup category former
        (entry.gap ++ (markup.wrap category entry.matched ++ marking markup category latter rest)) := by
  simp only [marking, List.flatMap_append, List.flatMap_cons, filled, Bool.false_eq_true,
    ↓reduceIte, List.append_assoc]

/-- Covering what is found as a layer does makes the text with markup. -/
theorem cover_marking (markup : Markup) (category : Category) (found : List Found)
    (rest : List Char) :
    Stretch.cover (markup.opened category) markup.closing.toList
        (found.flatMap Found.stretches ++ [.plain rest]) (found.flatMap Found.text ++ rest) =
      marking markup category found rest := by
  let scan : Regex.Scan := ⟨found, rest, none⟩
  have text : (Layer.ofScan category scan).source = found.flatMap Found.text ++ rest :=
    Layer.source_of_scan category scan
  rw [← text]
  exact (Stretch.cover_text markup category _).trans (Layer.written_of_scan markup category scan)

/-- Pieces with the flags of marked text have the marked text. -/
theorem written_of_cover {category : Category} {found : List Found} {rest : List Char}
    {tokens result : List Token} (text : found.flatMap Found.text ++ rest = written tokens)
    (flags : Stretch.cover ((html.opened category).map (·, false))
      (html.closing.toList.map (·, false)) (found.flatMap Found.stretches ++ [.plain rest])
      (flagged tokens) = flagged result) :
    written result = marking html category found rest := by
  rw [← map_flagged result, ← flags, Stretch.map_cover, map_flagged, ← text, ← cover_marking]
  simp [Function.comp_def]

/-! ### A wrapped stretch -/

/-- The characters of the source keep their flags behind a stretch that is wrapped. -/
theorem flagged_wrapped (category : Category) (gap covered : List Token) {latter result : List Token}
    {stretches : List Stretch}
    (flags : Stretch.cover ((html.opened category).map (·, false))
      (html.closing.toList.map (·, false)) stretches (flagged latter) = flagged result) :
    Stretch.cover ((html.opened category).map (·, false)) (html.closing.toList.map (·, false))
        (.plain (written gap) :: .marked (written covered) :: stretches)
        (flagged (gap ++ (covered ++ latter))) =
      flagged (gap ++ .opening :: .name category :: (covered ++ .closing :: result)) := by
  simp only [Stretch.cover, flagged_append, flagged_cons, ← length_flagged, List.take_left,
    List.drop_left, flags]
  simp [Markup.opened, Token.text, Token.isSource]

/-- The only new seams of a wrapped stretch are where it begins and ends. -/
theorem mem_seams_wrapped (category : Category) (offset : Nat) (gap covered result : List Token)
    (seam : Nat) :
    seam ∈ seams offset (gap ++ .opening :: .name category :: (covered ++ .closing :: result)) ↔
      seam ∈ seams offset (gap ++ covered) ∨
        (seam = offset + (written (sources gap)).length ∨
          seam = offset + (written (sources (gap ++ covered))).length) ∨
        seam ∈ seams (offset + (written (sources (gap ++ covered))).length) result := by
  have opening (offset : Nat) (others : List Token) :
      seams offset (.opening :: .name category :: others) =
        offset :: offset :: seams offset others := rfl
  have closing (offset : Nat) (others : List Token) :
      seams offset (.closing :: others) = offset :: seams offset others := rfl
  simp only [seams_append, opening, closing, List.mem_append, List.mem_cons, sources_append,
    written_append, List.length_append, Nat.add_assoc]
  tauto

/-- A wrapped stretch names the class once more. -/
theorem count_name_wrapped (category other : Category) (gap covered result : List Token) :
    (gap ++ .opening :: .name category :: (covered ++ .closing :: result)).count (.name other) =
      gap.count (.name other) + covered.count (.name other) + result.count (.name other) +
        if category = other then 1 else 0 := by
  simp only [List.count_append, List.count_cons, beq_iff_eq, reduceCtorEq, ↓reduceIte,
    Token.name.injEq]
  omega

/-- Marking the matches of an expression that spares the markup wraps stretches of pieces. The
flags of the characters go with them, only where a match begins or ends there is a new seam, and
for each match there is a new class name.

Proof: induction over the matches. Each begins behind the last, between two pieces outside of
tags, because it begins at no guarded place. -/
theorem hits_wrapped {neat : List Char → Prop} {expression : Expr}
    (spares : Spares neat expression) (category : Category) {tidy : Prop}
    {text : List Char} {place : Cursor text} {hits : List (Cursor text × Cursor text)}
    {found : List Found} {rest : List Char} (scanned : Hits expression place hits found rest)
    (complete : tidy → ∀ entry ∈ found, neat entry.matched) {inside : Bool}
    (done : List Token) (before : written done = place.before.reverse)
    {tokens : List Token} (orderly : Orderly inside tokens) (ahead : written tokens = place.after) :
    ∃ result, Wrapped tidy category inside tokens result ∧
      Stretch.cover ((html.opened category).map (·, false)) (html.closing.toList.map (·, false))
        (found.flatMap Found.stretches ++ [.plain rest]) (flagged tokens) = flagged result ∧
      (∀ seam, seam ∈ seams (written (sources done)).length result ↔
        seam ∈ seams (written (sources done)).length tokens ∨
          ∃ hit ∈ hits, seam = sourceCount (done ++ tokens) hit.1.index ∨
            seam = sourceCount (done ++ tokens) hit.2.index) ∧
      ∀ other, result.count (.name other) =
        tokens.count (.name other) + if category = other then hits.length else 0 := by
  induction scanned generalizing inside done tokens with
  | finished missing =>
    refine ⟨tokens, .rest orderly, ?_, by simp, by simp⟩
    rw [← ahead]
    simp [Stretch.cover]
  | @hit place first last hits found rest matched others induction =>
    obtain ⟨behind, preferred, _⟩ := Regex.leftmost_some matched
    have filled := Expr.first_consumes spares.tame spares.consumes matched
    rw [← Cursor.slice_append_after behind] at ahead
    rcases place_cases orderly ahead with
      ⟨gap, onward, rfl, passedOver, atFirst, begun, ordered⟩ |
        ⟨_, token, latter, _, _, _, _, _, _, passes, ordered, guarded⟩
    · obtain ⟨covered, latter, middle, rfl, matchedText, atLast, ended, ordered, outside⟩ :=
        spares.covers preferred ordered atFirst
      have reached : written (done ++ gap) = first.before.reverse := by
        rw [written_append, before, passedOver, Cursor.before_append_slice behind]
      have passed : written (done ++ (gap ++ covered)) = last.before.reverse := by
        rw [← List.append_assoc, written_append, reached, matchedText,
          Cursor.before_append_slice (Nat.le_of_lt filled)]
      obtain ⟨result, wrapped, flags, edges, names⟩ := induction
        (fun tidy entry listed => complete tidy entry (List.mem_cons_of_mem _ listed))
        (done ++ (gap ++ covered)) passed ordered atLast
      refine ⟨_, .wrap begun ended (fun tidy => outside (complete tidy _ List.mem_cons_self))
        wrapped, ?_, fun seam => ?_, fun other => ?_⟩
      · have nonempty : (first.slice last).isEmpty = false := by
          cases empty : first.slice last with
          | nil =>
            have same := (Cursor.slice_nil_iff (Nat.le_of_lt filled)).mp empty
            omega
          | cons _ _ => rfl
        have stretches : Found.stretches ⟨place.slice first, first.slice last⟩ =
            [.plain (written gap), .marked (written covered)] := by
          rw [Found.stretches, nonempty, passedOver, matchedText]
          rfl
        rw [List.flatMap_cons, stretches]
        exact flagged_wrapped category gap covered flags
      · have whole : done ++ (gap ++ covered) ++ latter = done ++ (gap ++ (covered ++ latter)) := by
          simp only [List.append_assoc]
        have begins : sourceCount (done ++ (gap ++ (covered ++ latter))) first.index =
            (written (sources done)).length + (written (sources gap)).length := by
          have counted := count_of_split (done ++ gap) (covered ++ latter)
          rwa [reached, List.length_reverse, ← first.counts, List.append_assoc, sources_append,
            written_append, List.length_append] at counted
        have ends : sourceCount (done ++ (gap ++ (covered ++ latter))) last.index =
            (written (sources done)).length + (written (sources (gap ++ covered))).length := by
          have counted := count_of_split (done ++ (gap ++ covered)) latter
          rwa [passed, List.length_reverse, ← last.counts, whole, sources_append, written_append,
            List.length_append] at counted
        have further := edges seam
        rw [whole, sources_append done, written_append, List.length_append] at further
        have kept := seams_append (written (sources done)).length (gap ++ covered) latter
        rw [List.append_assoc] at kept
        rw [mem_seams_wrapped, further, kept, List.mem_append]
        simp only [List.mem_cons, exists_eq_or_imp, begins, ends]
        exact or_assoc.symm.trans or_or_or_comm
      · rw [count_name_wrapped, names, List.count_append, List.count_append, List.length_cons]
        split <;> omega
    · exact (spares.unguarded preferred passes ordered guarded).elim

end Highlighter.Markup

import Highlighter.Grammar.Basic
import Highlighter.Log
import Highlighter.Markup

/-!
# Highlighting

A run applies the plan of a grammar to a text, one category after another, each pass over
the text that the pass before left behind. A pass marks all matches of its pattern; where
nothing matches, the text is left alone. The first pattern that does not compile, or
whose search is given up, ends the run, and the passes before it stay applied. The text is
in a holder, which every pass reads and which is written only by a pass that marks something.

Running twice is not the same as running once: matches inside the markup of the first run
are marked again.
-/

namespace Highlighter

/-- Why a run ended early: the category that failed, the text of its pattern, and what was
wrong with it. -/
inductive HighlightError where
  | invalidPattern (category : Category) (pattern : String) (problem : Regex.Problem)
  | matchFailed (category : Category) (pattern : String) (problem : Regex.Problem)
  deriving DecidableEq, Repr

namespace HighlightError

/-- The category whose pattern failed. -/
def category : HighlightError → Category
  | invalidPattern category _ _ | matchFailed category _ _ => category

/-- The text of the pattern that failed. -/
def pattern : HighlightError → String
  | invalidPattern _ pattern _ | matchFailed _ pattern _ => pattern

/-- What was wrong with the pattern. -/
def problem : HighlightError → Regex.Problem
  | invalidPattern _ _ problem | matchFailed _ _ problem => problem

/-- The failure in a few words. -/
def summary : HighlightError → String
  | invalidPattern category _ _ => "invalid pattern for " ++ category.className
  | matchFailed category _ _ => "matching failed for " ++ category.className

/-- The failure with the pattern and the problem. -/
def message (error : HighlightError) : String :=
  error.summary ++ " `" ++ error.pattern ++ "`: " ++ error.problem.message

end HighlightError

/-- What holds a text that can be read and replaced as a whole. -/
class Content (Holder : Type) where
  /-- The text. -/
  text : Holder → String
  /-- The holder behind the replacement of its text. -/
  replace : Holder → String → Holder

/-- A string holds itself. -/
instance : Content String := ⟨id, fun _ text => text⟩

@[simp] theorem Content.text_string (content : String) : Content.text content = content := rfl

@[simp] theorem Content.replace_string (content text : String) :
    Content.replace content text = text := rfl

/-- What a run leaves behind. -/
structure RunOn (Holder : Type) where
  /-- What holds the text, behind the run. -/
  content : Holder
  log : List Message
  /-- The texts that replaced the one before, in order. -/
  writes : List String
  error : Option HighlightError

/-- What a run on a string leaves behind. -/
abbrev Run := RunOn String

variable {Holder Renderer : Type} [Content Holder] [Render Renderer]

namespace Regex.Scan

/-- The matches that have characters. -/
def marked (scan : Scan) : List Found := scan.found.filter fun found => !found.matched.isEmpty

/-- The text that was scanned, with the markup of a category around every match that has
characters. -/
def withMarkup (scan : Scan) (renderer : Renderer) (category : Category) : List Char :=
  (scan.found.flatMap fun found =>
    found.gap ++
      if found.matched.isEmpty then [] else Render.wrap renderer category found.matched) ++
    scan.rest

end Regex.Scan

namespace Highlight

/-- The pattern of a plan entry, unless the entry leaves its category out. -/
def active? (pattern : Option Pattern) : Option Pattern :=
  pattern.filter fun pattern => !pattern.isEmpty

/-- What one pass comes to: the number of matches that were marked, and the new text. -/
def pass (renderer : Renderer) (category : Category) (pattern : Pattern) (content : String) :
    Except HighlightError (Nat × String) :=
  match pattern.compile (Pattern.searchLimit content) with
  | .error problem => .error (.invalidPattern category pattern.source problem)
  | .ok regex =>
    let scan := regex.scan content.toList
    match scan.problem with
    | some problem => .error (.matchFailed category pattern.source problem)
    | none => .ok (scan.marked.length, String.ofList (scan.withMarkup renderer category))

/-- Apply the entries of a plan in order. -/
def passes (renderer : Renderer) : List (Category × Option Pattern) → Holder → RunOn Holder
  | [], content => ⟨content, [], [], none⟩
  | (category, entry) :: others, content =>
    match active? entry with
    | none =>
      let run := passes renderer others content
      { run with log := .skipped category :: run.log }
    | some pattern =>
      match pass renderer category pattern (Content.text content) with
      | .error error => ⟨content, [], [], some error⟩
      | .ok (0, _) =>
        let run := passes renderer others content
        { run with log := .passed category 0 :: run.log }
      | .ok (count + 1, marked) =>
        let run := passes renderer others (Content.replace content marked)
        { run with
          log := .passed category (count + 1) :: run.log
          writes := marked :: run.writes }

end Highlight

/-- Mark a text by the given grammar and renderer. -/
def highlightWith (renderer : Renderer) (grammar : Grammar) (content : Holder) : RunOn Holder :=
  Highlight.passes renderer grammar.plan content

/-- Mark a text by the given grammar with the elements of a page. -/
def highlight (grammar : Grammar) (content : Holder) : RunOn Holder :=
  highlightWith Markup.html grammar content

/-- Several runs in a row, each on what the run before left, up to the first that fails. -/
def highlightTimes (renderer : Renderer) (grammar : Grammar) : Nat → Holder → RunOn Holder
  | 0, content => ⟨content, [], [], none⟩
  | count + 1, content =>
    let first := highlightWith renderer grammar content
    if first.error.isSome then first
    else
      let others := highlightTimes renderer grammar count first.content
      ⟨others.content, first.log ++ others.log, first.writes ++ others.writes, others.error⟩

end Highlighter

import Highlighter.Regex.Bracket
import Highlighter.Regex.Escape

/-!
# Reading patterns

The reader walks over the pattern text and keeps the groups that are still open on a
stack. What it has just read waits for a repetition operator before it is added to the
sequence it belongs to. Each turn either consumes a character or settles what waits, so
the reading ends.

Modes set inside a group that is not a capture group end with that group. Modes set
inside a capture group go on behind it.

Conditionals such as `(?(1)a|b)` are not read. They are refused as malformed, as the escapes
are that `Escape.read` refuses, although they belong to the language of patterns. So a result
about patterns that compile says nothing about patterns with them.
-/

namespace Highlighter.Regex.Parser

open Text (byteLength)

/-- The modes that change how a pattern text is read. -/
structure Modes where
  caseInsensitive : Bool := false
  multiLine : Bool := false
  dotAll : Bool := false
  /-- Repetitions are lazy unless marked. -/
  swapGreed : Bool := false
  /-- Blanks and comments between the parts of a pattern are skipped. -/
  skipBlanks : Bool := false
  deriving DecidableEq, Repr

/-- What a pair of parentheses does with the expression inside. -/
inductive Enclosure where
  | capture (group : Nat)
  | look (direction : Direction) (negated : Bool)
  | atomic
  /-- The parentheses only group; the modes from before them come back. -/
  | plain (modes : Modes)

/-- The expression in its parentheses. -/
def Enclosure.wrap : Enclosure → Expr → Expr
  | capture group, body => .capture group body
  | look direction negated, body => .look direction negated body
  | atomic, body => .atomic body
  | plain _, body => body.grouped

/-- The alternatives read so far and the parts of the current one, the last first. -/
structure Level where
  finished : List Expr := []
  parts : List Expr := []

namespace Level

/-- The level with one more part. Nothing leaves no part behind. -/
def add (level : Level) (part : Expr) : Level :=
  if part = .empty then level else { level with parts := part :: level.parts }

/-- Finish the current alternative. -/
def divide (level : Level) : Level :=
  ⟨Expr.sequences level.parts.reverse :: level.finished, []⟩

/-- The expression that the level describes. -/
def expression (level : Level) : Expr := Expr.alternatives level.divide.finished.reverse

end Level

/-- The state of the reader. -/
structure State where
  modes : Modes := {}
  /-- How many capture groups have been opened. -/
  groups : Nat := 0
  /-- The numbers of the named groups; the group opened last has a name it shares. -/
  names : List (String × Nat) := []
  /-- Some reference is by number. -/
  numbered : Bool := false
  /-- What stands between the innermost open parenthesis and here. -/
  level : Level := {}
  /-- The open parentheses, the innermost first, each with what stands before it. -/
  enclosing : List (Enclosure × Level) := []
  /-- What has just been read and may still be repeated. -/
  waiting : Option Expr := none

/-- No more parentheses than this may be open at once. -/
def maximalDepth : Nat := 63

/-- The length of a comment in parentheses, counted behind its opening. A backslash takes
the next character with it. The second part is the position of the end of the pattern if
the comment does not end before it. -/
def commentLength (position : Nat) : List Char → Except Problem Nat
  | [] => .error (.malformed position .unclosedGroup)
  | ')' :: _ => .ok 1
  | ['\\'] => .error (.malformed (position + 2) .unclosedGroup)
  | '\\' :: character :: rest =>
    (commentLength (position + 1 + character.utf8Size) rest).map (· + 2)
  | character :: rest => (commentLength (position + character.utf8Size) rest).map (· + 1)

/-- How many characters the next blank or comment takes; zero if there is none. Comments
in parentheses are skipped in every mode. -/
def blank (modes : Modes) (position : Nat) (rest : List Char) : Except Problem Nat :=
  match rest with
  | '(' :: '?' :: '#' :: inner => (commentLength (position + 3) inner).map (· + 3)
  | '#' :: inner =>
    if modes.skipBlanks then
      let comment := inner.takeWhile (· ≠ '\n')
      .ok (if comment.length < inner.length then comment.length + 2 else comment.length + 1)
    else .ok 0
  | character :: _ =>
    .ok (if modes.skipBlanks && [' ', '\r', '\n', '\t'].contains character then 1 else 0)
  | [] => .ok 0

/-- How many characters all blanks and comments up to the next part take. -/
def blanks (modes : Modes) (position : Nat) (rest : List Char) : Except Problem Nat :=
  match rest with
  | [] => .ok 0
  | first :: others =>
    match blank modes position (first :: others) with
    | .error problem => .error problem
    | .ok 0 => .ok 0
    | .ok (count + 1) =>
      let skipped := (first :: others).take (count + 1)
      (blanks modes (position + byteLength skipped) (others.drop count)).map (· + (count + 1))
termination_by rest.length
decreasing_by simp only [List.length_cons, List.length_drop]; omega

/-- The bounds of a repetition in braces, given what follows the opening brace, and how
many characters are taken. Nothing if the braces hold something else; they then stand for
themselves. -/
def bounds? (modes : Modes) (rest : List Char) : Option ((Nat × Option Nat) × Nat) :=
  let skip := fun (begin : List Char) => (blanks modes 0 begin).toOption
  do
    let before ← skip rest
    let afterBlank := rest.drop before
    let (least, leastLength) ←
      if afterBlank.head? = some ',' then some (0, 0) else Escape.decimal? afterBlank
    let between ← skip (afterBlank.drop leastLength)
    let afterLeast := (afterBlank.drop leastLength).drop between
    let taken := before + leastLength + between
    match afterLeast with
    | '\x7d' :: _ => some ((least, some least), taken + 1)
    | ',' :: behind =>
      let gap ← skip behind
      let (most, mostLength) := match Escape.decimal? (behind.drop gap) with
        | some (number, length) => (some number, length)
        | none => (none, 0)
      let last ← skip (behind.drop (gap + mostLength))
      if (behind.drop (gap + mostLength + last)).head? = some '\x7d' then
        some ((least, most), taken + 1 + gap + mostLength + last + 1)
      else none
    | _ => none

/-- The repetition operator that the text begins with: its bounds, and how many characters
it takes. -/
def operator? (modes : Modes) : List Char → Option ((Nat × Option Nat) × Nat)
  | '?' :: _ => some ((0, some 1), 1)
  | '*' :: _ => some ((0, none), 1)
  | '+' :: _ => some ((1, none), 1)
  | '\x7b' :: rest => (bounds? modes rest).map fun (bounds, taken) => (bounds, taken + 1)
  | _ => none

/-- What may follow a repetition operator: a question mark for a lazy repetition and a
plus for one that gives nothing back. The number counts the characters taken. -/
def manner (modes : Modes) (position : Nat) (rest : List Char) :
    Except Problem ((Bool × Bool) × Nat) := do
  let gap ← blanks modes position rest
  let behind := rest.drop gap
  let lazy := behind.head? = some '?'
  let taken := gap + if lazy then 1 else 0
  let possessive := (rest.drop taken).head? = some '+'
  return ((!lazy, possessive), taken + if possessive then 1 else 0)

/-- A mode letter sets or clears its mode. -/
def setMode? (modes : Modes) (value : Bool) : Char → Option Modes
  | 'i' => some { modes with caseInsensitive := value }
  | 'm' => some { modes with multiLine := value }
  | 's' => some { modes with dotAll := value }
  | 'U' => some { modes with swapGreed := value }
  | 'x' => some { modes with skipBlanks := value }
  | 'u' => if value then some modes else none
  | _ => none

/-- Read the letters between `(?` and a colon or a closing parenthesis. The result tells
the modes, whether a colon follows, and how many characters are taken. `written` holds the
characters read so far, the last first, and `start` is the position of the first. -/
def modeLetters (start : Nat) (modes : Modes) (negative : Bool) (written : List Char)
    (rest : List Char) (taken : Nat) : Except Problem (Modes × Bool × Nat) :=
  let position := start + byteLength written
  match rest with
  | [] => .error (.malformed position .unclosedGroup)
  | letter :: others =>
    match blank modes position (letter :: others) with
    | .error problem => .error problem
    | .ok (count + 1) =>
      let skipped := (letter :: others).take (count + 1)
      modeLetters start modes negative (skipped.reverse ++ written) (others.drop count)
        (taken + count + 1)
    | .ok 0 =>
      let unknown := .error (.malformed start
        (.unknownMode (String.ofList ('(' :: '?' :: (letter :: written).reverse))))
      let dangling := negative && written.head? = some '-'
      if letter = ')' then
        if written.isEmpty || dangling then unknown else .ok (modes, false, taken + 1)
      else if letter = ':' then
        if dangling then unknown else .ok (modes, true, taken + 1)
      else if letter = '-' then
        if negative then unknown
        else modeLetters start modes true (letter :: written) others (taken + 1)
      else match setMode? modes (!negative) letter with
        | some modes => modeLetters start modes negative (letter :: written) others (taken + 1)
        | none => if letter = 'u' then .error (.malformed position .unicodeOff) else unknown
termination_by rest.length
decreasing_by all_goals (simp only [List.length_cons, List.length_drop]; omega)

/-- What an opening parenthesis begins. -/
inductive Opening where
  /-- A group, with its name if it has one. -/
  | group (enclosure : Modes → Nat → Enclosure) (captures : Bool) (name : Option String)
  /-- Modes for the rest of the enclosing group, or for a group of their own. -/
  | modes (modes : Modes) (encloses : Bool)
  /-- A back reference by name. -/
  | reference (name : String)

/-- Read what follows an opening parenthesis. The position is that behind it. The number
counts the characters taken. Conditionals are refused. -/
def opening (modes : Modes) (position : Nat) (rest : List Char) :
    Except Problem (Opening × Nat) := do
  let gap ← blanks modes position rest
  let position := position + byteLength (rest.take gap)
  let named := fun (skip : Nat) (openings closings : List Char) (behind : List Char) =>
    match Escape.delimited? openings closings behind with
    | some (name, taken) =>
      .ok (Opening.group (fun _ number => .capture number) true (some name), gap + skip + taken)
    | none => .error (.malformed position .groupName)
  let plain := fun (enclosure : Enclosure) (taken : Nat) =>
    .ok (Opening.group (fun _ _ => enclosure) false none, gap + taken)
  match rest.drop gap with
  | '?' :: '=' :: _ => plain (.look .ahead false) 2
  | '?' :: '!' :: _ => plain (.look .ahead true) 2
  | '?' :: '<' :: '=' :: _ => plain (.look .behind false) 3
  | '?' :: '<' :: '!' :: _ => plain (.look .behind true) 3
  | '?' :: '<' :: behind => named 1 ['<'] ['>'] ('<' :: behind)
  | '?' :: '\'' :: behind => named 1 ['\''] ['\''] ('\'' :: behind)
  | '?' :: 'P' :: '<' :: behind => named 2 ['<'] ['>'] ('<' :: behind)
  | '?' :: 'P' :: '=' :: behind =>
    match Escape.delimited? [] [')'] behind with
    | some (name, taken) => .ok (.reference name, gap + 3 + taken)
    | none => .error (.malformed (position + 3) .groupName)
  | '?' :: '>' :: _ => plain .atomic 2
  | '?' :: behind =>
    let (newModes, encloses, taken) ← modeLetters (position + 1) modes false [] behind 0
    .ok (.modes newModes encloses, gap + 1 + taken)
  | _ => .ok (.group (fun _ number => .capture number) true none, gap)

/-- The group that a name refers to: the group of that name, or the group whose number the
name is. -/
def groupOf? (state : State) (name : String) : Option Nat :=
  match state.names.lookup name with
  | some group => some group
  | none =>
    if name.toList.all Escape.isDigit then (Escape.decimal? name.toList).map Prod.fst else none

/-- What an escape outside bracket expressions means for the reader. -/
def escape (bound : Nat) (state : State) (position : Nat) (rest : List Char) :
    Except Problem (State × Nat) := do
  let (meaning, taken) ← Escape.read state.modes.caseInsensitive false position rest
  match meaning with
  | .character character folds =>
    let literal := Expr.literal character (folds && state.modes.caseInsensitive)
    return ({ state with waiting := some literal }, taken)
  | .set members => return ({ state with waiting := some (.one members) }, taken)
  | .condition assertion => return ({ state with waiting := some (.assertion assertion) }, taken)
  | .number group =>
    if group < bound then
      return ({ state with waiting := some (.reference group), numbered := true }, taken)
    else throw (.malformed (position + 1) .referenceNumber)
  | .name name =>
    match groupOf? state name with
    | some group => return ({ state with waiting := some (.reference group) }, taken)
    | none => throw (.malformed (position + 2) (.unknownGroup name))

/-- Collect the items of a bracket expression up to its last bracket. `depth` counts the
brackets opened inside it. The result holds the items, the last first, and how many
characters are taken. An escape that describes no characters is a fault. -/
def bracketItems (bound : Nat) (caseInsensitive : Bool) (depth : Nat)
    (items : List Bracket.Item) (position taken : Nat) (rest : List Char) :
    Except Problem (List Bracket.Item × Nat) :=
  match rest with
  | [] => .error (.malformed position .malformedClass)
  | '\\' :: further =>
    match Escape.read caseInsensitive true position further with
    | .error problem => .error problem
    | .ok (meaning, count) =>
      let behind := position + 1 + byteLength (further.take count)
      let add := fun (item : Bracket.Item) =>
        bracketItems bound caseInsensitive depth (item :: items) behind (taken + 1 + count)
          (further.drop count)
      match meaning with
      | .character character _ => add (.escaped character)
      | .set members => add (.set members)
      | .number group =>
        if group < bound then .error (.malformed position .malformedClass)
        else .error (.malformed (position + 1) .referenceNumber)
      | .condition _ | .name _ => .error (.malformed position .malformedClass)
  | ']' :: further =>
    match depth with
    | 0 => .ok (.plain ']' :: items, taken + 1)
    | depth + 1 =>
      bracketItems bound caseInsensitive depth (.plain ']' :: items) (position + 1)
        (taken + 1) further
  | character :: further =>
    bracketItems bound caseInsensitive (if character = '[' then depth + 1 else depth)
      (.plain character :: items) (position + character.utf8Size) (taken + 1) further
termination_by rest.length
decreasing_by all_goals (simp only [List.length_cons, List.length_drop]; omega)

/-- Read a bracket expression behind its opening bracket. A closing bracket that comes
first, or first behind a caret, stands for itself. -/
def bracket (bound : Nat) (state : State) (position : Nat) (rest : List Char) :
    Except Problem (State × Nat) := do
  let caret := if rest.head? = some '^' then 1 else 0
  let closing := if (rest.drop caret).head? = some ']' then 1 else 0
  let leading := ((rest.take (caret + closing)).map Bracket.Item.plain).reverse
  let (items, taken) ← bracketItems bound state.modes.caseInsensitive 0 leading
    (position + caret + closing) (caret + closing) (rest.drop (caret + closing))
  let set := Bracket.parse? state.modes.caseInsensitive items.reverse
  return ({ state with waiting := some (.one set) }, taken)

/-- Add what waits to the current sequence. -/
def settle (state : State) : State :=
  match state.waiting with
  | none => state
  | some part => { state with level := state.level.add part, waiting := none }

/-- An expression without alternatives ends here. By now named groups and references by
number must not both have been seen. -/
def checkReferences (state : State) : Except Problem Unit :=
  if state.level.finished.isEmpty && state.numbered && !state.names.isEmpty then
    .error (.unsupported .numberedReference)
  else .ok ()

/-- Close the innermost group. -/
def closeGroup (state : State) (position : Nat) : Except Problem State := do
  checkReferences state
  match state.enclosing with
  | [] => throw (.malformed position .unopenedGroup)
  | (enclosure, outer) :: enclosing =>
    let modes := match enclosure with
      | .plain modes => modes
      | _ => state.modes
    return { state with
      modes, level := outer, enclosing
      waiting := some (enclosure.wrap state.level.expression) }

/-- Read from an opening parenthesis on. The position is that of the parenthesis; the
number counts the characters taken behind it. -/
def openGroup (state : State) (position : Nat) (rest : List Char) :
    Except Problem (State × Nat) := do
  if maximalDepth ≤ state.enclosing.length then throw (.malformed position .tooDeep)
  let (begun, taken) ← opening state.modes (position + 1) rest
  match begun with
  | .reference name =>
    match groupOf? state name with
    | some group => return ({ state with waiting := some (.reference group) }, taken)
    | none =>
      let gap ← blanks state.modes (position + 1) rest
      let start := position + 1 + byteLength (rest.take gap) + 3
      throw (.malformed start (.unknownGroup name))
  | .modes modes false => return ({ state with modes, waiting := some .empty }, taken)
  | .modes modes true =>
    return ({ state with
      modes, level := {}, enclosing := (.plain state.modes, state.level) :: state.enclosing }, taken)
  | .group enclosure captures name =>
    let groups := if captures then state.groups + 1 else state.groups
    let names := match name with
      | some name => (name, groups) :: state.names
      | none => state.names
    return ({ state with
      groups, names, level := {},
      enclosing := (enclosure state.modes groups, state.level) :: state.enclosing }, taken)

/-- Read the part that begins with the given character. The number counts the characters
taken behind it. -/
def part (bound : Nat) (state : State) (position : Nat) (first : Char)
    (rest : List Char) : Except Problem (State × Nat) :=
  let wait := fun (expression : Expr) => .ok ({ state with waiting := some expression }, 0)
  match first with
  | '.' => wait (.one (some (if state.modes.dotAll then .anything else .withinLine)))
  | '^' => wait (.assertion (if state.modes.multiLine then .lineStart else .textStart))
  | '$' => wait (.assertion (if state.modes.multiLine then .lineEnd else .textEnd))
  | '(' => openGroup state position rest
  | ')' => (closeGroup state position).map (·, 0)
  | '|' => .ok ({ state with level := state.level.divide }, 0)
  | '\\' => escape bound state position rest
  | '[' => bracket bound state (position + 1) rest
  | '*' | '+' | '?' => .error (.malformed position .nothingToRepeat)
  | character => wait (Expr.literal character state.modes.caseInsensitive)

/-- Read the rest of a pattern. -/
def read (bound : Nat) (state : State) (position : Nat) (rest : List Char) :
    Except Problem State :=
  match rest with
  | [] => do
    let state := settle state
    checkReferences state
    if state.enclosing.isEmpty then return state
    else throw (.malformed position .unclosedGroup)
  | first :: others =>
    match blank state.modes position (first :: others) with
    | .error problem => .error problem
    | .ok (count + 1) =>
      let skipped := (first :: others).take (count + 1)
      read bound state (position + byteLength skipped) (others.drop count)
    | .ok 0 =>
      match _waits : state.waiting with
      | some expression =>
        match operator? state.modes (first :: others) with
        | some ((least, most), taken) =>
          let behind := position + byteLength ((first :: others).take taken)
          if !expression.repeatable then .error (.malformed (behind - 1) .nothingToRepeat)
          else match manner state.modes behind ((first :: others).drop taken) with
            | .error problem => .error problem
            | .ok ((greedy, possessive), further) =>
              let repeated := Expr.repetition expression least most
                (greedy != state.modes.swapGreed)
              let repeated := if possessive then Expr.atomic repeated else repeated
              let skipped := (first :: others).take (taken + further)
              read bound { state with level := state.level.add repeated, waiting := none }
                (position + byteLength skipped) (others.drop (taken + further - 1))
        | none => read bound (settle state) position (first :: others)
      | none =>
        match part bound state position first others with
        | .error problem => .error problem
        | .ok (state, taken) =>
          read bound state (position + byteLength ((first :: others).take (taken + 1)))
            (others.drop taken)
termination_by 2 * rest.length + (if state.waiting.isSome then 1 else 0)
decreasing_by
  · simp only [List.length_cons, List.length_drop]; omega
  · simp only [List.length_drop, List.length_cons, _waits]; simp; omega
  · simp [settle, _waits]
  · simp only [List.length_drop, List.length_cons, _waits]
    split
    all_goals grind

/-- Read the characters of a pattern text. -/
def parse (characters : List Char) : Except Problem Expr :=
  (read (byteLength characters / 2) {} 0 characters).map fun state => state.level.expression

end Highlighter.Regex.Parser

import Highlighter.Regex.Machine
import Highlighter.Regex.Problem
import Highlighter.Regex.Size

/-!
# Choosing how an expression is matched

An expression without lookarounds, atomic groups and references is matched by one
automaton. Any other becomes a program for the machine, in which plain parts are still
automata or single characters: in a sequence the leading parts of fixed length and the
trailing ones, and inside lookarounds and atomic groups everything that can be. What such
a part matches is settled once it has matched, which is right because its other matches
would end at the same place or are not asked for.

What is left to an automaton may not ask for too large a one. Text that is spelled out
needs none: it is compared character by character, however long it is.
-/

namespace Highlighter.Regex

/-- How an expression is matched. -/
inductive Matcher where
  | automaton (automaton : Automaton)
  | machine (code : Code)

namespace Code

/-- The programs one after another. -/
def sequences : List Code → Code
  | [] => skip
  | [only] => only
  | first :: rest => sequence first (sequences rest)

/-- The programs as alternatives, the preferred one first. -/
def alternatives : List Code → Code
  | [] => skip
  | [only] => only
  | first :: rest => either first (alternatives rest)

/-- The program of an expression that can match in one way only. -/
def ofChoiceless : Expr → Code
  | .one set => one (set.getD .nothing)
  | .assertion assertion => condition assertion
  | .sequence first second => sequence (ofChoiceless first) (ofChoiceless second)
  | .capture _ body | .group body => ofChoiceless body
  | _ => skip

end Code

namespace Compile

/-- Expressions must make sense and may not ask for too large an automaton. -/
def check (expression : Expr) : Except Obstacle Unit :=
  if expression.malformed then .error .malformedPart
  else if memoryLimit < expression.memory then .error .tooLarge
  else .ok ()

/-- The program for neighbouring parts that need no going back. -/
def settled (parts : List Expr) : Except Obstacle (List Code) :=
  if parts.all Expr.spelledOut then .ok (parts.map Code.ofChoiceless)
  else do
    check (.sequences parts)
    return if parts.all Expr.choiceless then parts.map Code.ofChoiceless
      else [.part (Automaton.ofExpr (.sequences parts))]

/-- The parts of a sequence, split into those that are settled at its begin, those that
are tried one after another, and those that are settled at its end. At the end, parts of
any length may be settled unless more choices follow the sequence. -/
def divide (referred : List Nat) (choicesFollow : Bool) (parts : List Expr) :
    List Expr × List Expr × List Expr :=
  let leading := parts.takeWhile fun part => part.fixedLength && part.plain referred
  let rest := parts.drop leading.length
  let trailing := rest.reverse.takeWhile fun part =>
    (part.fixedLength || !choicesFollow) && part.plain referred
  (leading, rest.take (rest.length - trailing.length), trailing.reverse)

theorem mem_of_mem_divide {referred : List Nat} {choicesFollow : Bool} {parts : List Expr}
    {part : Expr} (member : part ∈ (divide referred choicesFollow parts).2.1) :
    part ∈ parts :=
  List.mem_of_mem_drop (List.mem_of_mem_take member)

/-- The program of an expression. If choices follow that may be gone back for, the
expression must offer all its matches. -/
def code (referred : List Nat) (choicesFollow : Bool) (expression : Expr) :
    Except Obstacle Code :=
  if !choicesFollow && expression.plain referred then
    (settled [expression]).map Code.sequences
  else match expression with
  | .empty | .one _ | .assertion _ => (settled [expression]).map Code.sequences
  | .sequence first second => do
    let divided := divide referred choicesFollow (first.parts ++ second.parts)
    let leading ← settled divided.1
    let tried ← divided.2.1.attach.mapM fun part => code referred true part.1
    let trailing ← settled divided.2.2
    return Code.sequences (leading ++ tried ++ trailing)
  | .either first second => do
    return .either (← code referred choicesFollow first) (← code referred choicesFollow second)
  | .repetition body least most greedy => do
    let follow := choicesFollow ||
      ((least, most) != (0, some 1) && !body.plain referred)
    return .repetition (← code referred follow body) least most greedy
  | .capture group body => do
    let body ← code referred choicesFollow body
    return if referred.contains group then .capture group body else body
  | .group body => code referred choicesFollow body
  | .atomic body => do return .atomic (← code referred false body)
  | .reference group => return .reference group
  | .look .ahead negated body => do return .look 0 negated (← code referred false body)
  | .look .behind negated body =>
    if body.fixedLength then do
      return .look body.minimalLength negated (← code referred false body)
    else do
      -- Alternatives of different lengths are looked for one by one.
      let looks ← body.ungrouped.options.attach.mapM fun option => do
        if option.1.fixedLength then
          return Code.look option.1.minimalLength negated (← code referred false option.1)
        else throw .variableLookBehind
      return if negated then Code.sequences looks else Code.alternatives looks
termination_by sizeOf expression
decreasing_by
  all_goals simp
  all_goals try omega
  · have inParts := mem_of_mem_divide part.2
    simp only [List.mem_append] at inParts
    rcases inParts with inFirst | inSecond
    · have smaller := Expr.sizeOf_of_mem_parts inFirst
      omega
    · have smaller := Expr.sizeOf_of_mem_parts inSecond
      omega
  · have smaller := Expr.sizeOf_of_mem_options option.2
    have stripped := Expr.sizeOf_ungrouped_le body
    omega

/-- The matcher of an expression. -/
def matcher (expression : Expr) : Except Obstacle Matcher := do
  if (expression.checkedGroups 0).isNone then throw .unknownReference
  let referred := expression.references
  if expression.needsChoices referred then
    return .machine (← code referred true expression)
  else
    check expression
    return .automaton (Automaton.ofExpr expression)

end Compile

end Highlighter.Regex

import Highlighter.Regex.Expr

/-!
# The shape of an expression

Facts that decide how an expression is matched: how short a match can be, whether all
matches have one length, which groups are referred to, and whether the expression needs
a search that goes back to earlier choices. Lookarounds, atomic groups and references
need one; everything else can be matched in one pass over the text.

Within an expression that is searched for, a part is `plain` if it can be left to an
automaton. Conditions on words keep it from that, for an automaton is slow with them: they
are asked for one by one.
-/

namespace Highlighter.Regex.Expr

/-- The number of characters in the shortest match. -/
def minimalLength : Expr → Nat
  | empty | assertion _ | look _ _ _ | reference _ => 0
  | one _ => 1
  | sequence first second => first.minimalLength + second.minimalLength
  | either first second => min first.minimalLength second.minimalLength
  | repetition body least _ _ => body.minimalLength * least
  | capture _ body | group body | atomic body => body.minimalLength

/-- All matches have the same number of characters. -/
def fixedLength : Expr → Bool
  | empty | assertion _ | look _ _ _ | one _ => true
  | reference _ => false
  | sequence first second => first.fixedLength && second.fixedLength
  | either first second =>
    first.fixedLength && second.fixedLength && first.minimalLength = second.minimalLength
  | repetition body least most _ => body.fixedLength && most = some least
  | capture _ body | group body | atomic body => body.fixedLength

/-- No match consumes a character. -/
def consumesNothing : Expr → Bool
  | empty | assertion _ | look _ _ _ => true
  | one _ | reference _ => false
  | sequence first second | either first second =>
    first.consumesNothing && second.consumesNothing
  | repetition body _ most _ => body.consumesNothing || most = some 0
  | capture _ body | group body | atomic body => body.consumesNothing

/-- The groups that the expression refers to. -/
def references : Expr → List Nat
  | empty | assertion _ | one _ => []
  | reference number => [number]
  | sequence first second | either first second => first.references ++ second.references
  | repetition body _ _ _ | capture _ body | group body | look _ _ body | atomic body =>
    body.references

/-- The expression is matched by going back to earlier choices. A group that is referred
to must record what it matched, which only that search does. -/
def needsChoices (referred : List Nat) : Expr → Bool
  | empty | assertion _ | one _ => false
  | look _ _ _ | atomic _ | reference _ => true
  | sequence first second | either first second =>
    first.needsChoices referred || second.needsChoices referred
  | repetition body _ _ _ | group body => body.needsChoices referred
  | capture number body => referred.contains number || body.needsChoices referred

/-- Some condition looks at what belongs to words. -/
def asksForWords : Expr → Bool
  | empty | one _ | reference _ => false
  | assertion condition => condition.concernsWords
  | sequence first second | either first second => first.asksForWords || second.asksForWords
  | repetition body _ _ _ | capture _ body | group body | look _ _ body | atomic body =>
    body.asksForWords

/-- As a part of an expression that is searched for, the expression can be left to an
automaton. -/
def plain (referred : List Nat) (expression : Expr) : Bool :=
  !expression.needsChoices referred && !expression.asksForWords

/-- The expression is spelled out: certain characters one after another. -/
def spelledOut : Expr → Bool
  | one (some (.range first last)) => first = last
  | sequence first second => first.spelledOut && second.spelledOut
  | group body => body.spelledOut
  | _ => false

/-- Every reference points to a group that begins before it. The count of groups begun so
far is passed along; nothing if a reference points elsewhere. -/
def checkedGroups (begun : Nat) : Expr → Option Nat
  | empty | assertion _ | one _ => some begun
  | reference number => if 0 < number ∧ number ≤ begun then some begun else none
  | sequence first second | either first second =>
    (first.checkedGroups begun).bind fun count => second.checkedGroups count
  | repetition body _ _ _ | group body | look _ _ body | atomic body =>
    body.checkedGroups begun
  | capture _ body => body.checkedGroups (begun + 1)

/-- There is at most one way to match: no alternatives and no repetitions. -/
def choiceless : Expr → Bool
  | empty | assertion _ | one _ => true
  | sequence first second => first.choiceless && second.choiceless
  | capture _ body | group body => body.choiceless
  | either _ _ | repetition _ _ _ _ | look _ _ _ | atomic _ | reference _ => false

/-- The parts of a sequence, in order. A group counts as one part. -/
def parts : Expr → List Expr
  | sequence first second => first.parts ++ second.parts
  | other => [other]

/-- The expression without parentheses around the whole of it. -/
def ungrouped : Expr → Expr
  | group body => body.ungrouped
  | other => other

/-- The alternatives that an expression offers, in order. A group counts as one. -/
def options : Expr → List Expr
  | either first second => first.options ++ second.options
  | other => [other]

/-- No part of an expression is larger than the expression. -/
theorem sizeOf_of_mem_parts {expression part : Expr} (member : part ∈ expression.parts) :
    sizeOf part ≤ sizeOf expression := by
  induction expression with
  | sequence first second firstHypothesis secondHypothesis =>
    simp only [parts, List.mem_append] at member
    simp only [sequence.sizeOf_spec]
    rcases member with inFirst | inSecond
    · have smaller := firstHypothesis inFirst
      omega
    · have smaller := secondHypothesis inSecond
      omega
  | _ =>
    simp only [parts, List.mem_singleton] at member
    exact member ▸ Nat.le_refl _

/-- No alternative of an expression is larger than the expression. -/
theorem sizeOf_of_mem_options {expression option : Expr} (member : option ∈ expression.options) :
    sizeOf option ≤ sizeOf expression := by
  induction expression with
  | either first second firstHypothesis secondHypothesis =>
    simp only [options, List.mem_append] at member
    simp only [either.sizeOf_spec]
    rcases member with inFirst | inSecond
    · have smaller := firstHypothesis inFirst
      omega
    · have smaller := secondHypothesis inSecond
      omega
  | _ =>
    simp only [options, List.mem_singleton] at member
    exact member ▸ Nat.le_refl _

/-- Parentheses add to the size of an expression. -/
theorem sizeOf_ungrouped_le (expression : Expr) : sizeOf expression.ungrouped ≤ sizeOf expression := by
  induction expression with
  | group body hypothesis =>
    simp only [ungrouped, group.sizeOf_spec]
    omega
  | _ => exact Nat.le_refl _

/-- What is kept by sequences holds of a sequence if it holds of its parts. -/
theorem sequences_of_parts (property : Expr → Prop) (none : property .empty)
    (sequence : ∀ first second, property first → property second →
      property (.sequence first second)) {parts : List Expr}
    (each : ∀ part ∈ parts, property part) : property (.sequences parts) := by
  induction parts with
  | nil => exact none
  | cons part others induction =>
    cases others with
    | nil => exact each part List.mem_cons_self
    | cons next further =>
      exact sequence _ _ (each part List.mem_cons_self)
        (induction fun other listed => each other (List.mem_cons_of_mem _ listed))

/-- What is kept by alternatives holds of all of them together if it holds of each, and there
is one at least. -/
theorem alternatives_of_options (property : Expr → Prop)
    (either : ∀ first second, property first → property second →
      property (.either first second)) {options : List Expr} (filled : options ≠ [])
    (each : ∀ option ∈ options, property option) : property (.alternatives options) := by
  induction options with
  | nil => exact absurd rfl filled
  | cons option others induction =>
    cases others with
    | nil => exact each option List.mem_cons_self
    | cons next further =>
      exact either _ _ (each option List.mem_cons_self)
        (induction (List.cons_ne_nil _ _)
          fun other listed => each other (List.mem_cons_of_mem _ listed))

/-- Some set is malformed, or some repetition has its bounds the wrong way round or out of
range. -/
def malformed : Expr → Bool
  | empty | assertion _ | reference _ => false
  | one set => set.isNone
  | sequence first second | either first second => first.malformed || second.malformed
  | repetition body least most _ =>
    body.malformed || 0x100000000 ≤ least || most.any fun bound => bound < least || 0x100000000 ≤ bound
  | capture _ body | group body | look _ _ body | atomic body => body.malformed

end Highlighter.Regex.Expr

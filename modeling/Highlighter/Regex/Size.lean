import Highlighter.Regex.Shape

/-!
# The size of an automaton

An automaton may not take more than ten mebibytes. A bounded repetition is written out
as often as it asks for, so a short pattern can ask for a large automaton. `memory`
estimates how many bytes the automaton of an expression takes: states for each byte of each
character are counted, and a class that is told by a property of Unicode is charged a round
sum, whatever the property. So close to the limit the estimate and an exact count can fall
on different sides.
-/

namespace Highlighter.Regex

open Unicode (Property)

/-- The bytes that one state takes. -/
def stateBytes : Nat := 32

/-- The largest automaton that is built, in bytes. -/
def memoryLimit : Nat := 10 * 0x100000

/-- The bytes that the states of a class take, as estimated. -/
def CharClass.memory : CharClass → Nat
  | nothing => stateBytes
  | range first last =>
    if first = last then stateBytes * first.utf8Size
    else if last.toNat < 0x80 then stateBytes + 8
    else 6 * stateBytes
  | having .any | having .ascii => 9 * stateBytes
  | having .space => 20 * stateBytes
  | having .digit => 100 * stateBytes
  | having _ => 625 * stateBytes
  | union left right | symmetricDifference left right => left.memory + right.memory
  | intersection left right => min left.memory right.memory
  | difference left _ => left.memory
  | complement inner => inner.memory + 9 * stateBytes
  | caseClosure inner => 2 * inner.memory

/-- The bytes that the automaton of an expression takes, as estimated. -/
def Expr.memory : Expr → Nat
  | empty | assertion _ | reference _ => stateBytes
  | one set => (set.getD .nothing).memory
  | sequence first second => first.memory + second.memory
  | either first second => first.memory + second.memory + stateBytes
  | group body => body.memory
  | capture _ body | look _ _ body | atomic body => body.memory + 2 * stateBytes
  | repetition body least most _ =>
    let cap := fun count => if body.consumesNothing then min count 1 else count
    match most with
    | none => max (cap least) 1 * body.memory + 2 * stateBytes
    | some most =>
      max (cap least) (cap most) * body.memory + (cap most - cap least) * stateBytes + stateBytes

end Highlighter.Regex

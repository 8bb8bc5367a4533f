import Highlighter.Grammar.Dart
import Highlighter.Log
import Highlighter.Path

/-!
# Registries

A `Registry` lists the grammars that can be chosen, in the order of their registration.
A grammar replaces an earlier one of exactly the same name. Names and extensions are
looked up without regard to the case of ASCII letters, and what was registered last wins.
-/

namespace Highlighter

/-- The grammars that can be chosen. -/
structure Registry where
  /-- The grammars, the one registered last at the end. -/
  grammars : List Grammar

namespace Registry

/-- No grammars. -/
def empty : Registry := ⟨[]⟩

/-- Register a grammar. One with the same name is dropped. -/
def register (registry : Registry) (grammar : Grammar) : Registry :=
  ⟨registry.grammars.filter (fun existing => existing.name ≠ grammar.name) ++ [grammar]⟩

/-- What registering the grammar tells: whether it replaces another. -/
def registration (registry : Registry) (grammar : Grammar) : Message :=
  if registry.grammars.any fun existing => existing.name = grammar.name then
    .replaced grammar.name
  else .registered grammar.name

/-- The grammars that are known without a description. -/
def standard : Registry := empty.register Grammar.dart

/-- Two texts are equal but for the case of ASCII letters. -/
def sameLetters (left right : String) : Bool :=
  left.toList.map Char.toLower = right.toList.map Char.toLower

/-- The grammar of the given name. -/
def named? (registry : Registry) (name : String) : Option Grammar :=
  registry.grammars.reverse.find? fun grammar => sameLetters grammar.name name

/-- The grammar for files of the given extension. -/
def forExtension? (registry : Registry) (extension : String) : Option Grammar :=
  registry.grammars.reverse.find? fun grammar =>
    grammar.extensions.any fun candidate => sameLetters candidate (withoutDots extension)

/-- The grammar for the given file, by its extension. -/
def forPath? (registry : Registry) (path : Path) : Option Grammar :=
  path.extension?.bind registry.forExtension?

/-- The grammar of the requested name, or without a request the one for the file. A name
that is not known does not lead back to the file. -/
def choose? (registry : Registry) (requested : Option String) (path : Path) : Option Grammar :=
  match requested with
  | some name => registry.named? name
  | none => registry.forPath? path

end Registry

end Highlighter

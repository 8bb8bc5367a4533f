import Highlighter.Category

/-!
# Markup

What is put around a text is up to a renderer. A `Markup` is one that says what stands
before the class name, between it and the text, and behind the text. The text of a page may
not hold the three characters that markup is made of, so it is escaped first.
-/

namespace Highlighter

/-- A way to mark text. Tags have to begin with `<` and end with `>`, and values of
attributes have to stand in double quotes, or patterns will take markup for code. -/
class Render (Renderer : Type) where
  /-- A text of the category as it is marked. -/
  wrap : Renderer → Category → List Char → List Char

/-- Markup around a text that stays as it is. -/
structure Markup where
  /-- What stands before the class name. -/
  opening : String
  /-- What stands between the class name and the text. -/
  middle : String
  /-- What stands behind the text. -/
  closing : String
  deriving DecidableEq, Repr

namespace Markup

/-- The elements of a page. -/
def html : Markup := ⟨"<span class=\"", "\">", "</span>"⟩

/-- The markup in front of a text of the category. -/
def opened (markup : Markup) (category : Category) : List Char :=
  markup.opening.toList ++ category.className.toList ++ markup.middle.toList

/-- A text of the category with its markup. -/
def wrap (markup : Markup) (category : Category) (text : List Char) : List Char :=
  markup.opened category ++ text ++ markup.closing.toList

instance : Render Markup := ⟨wrap⟩

@[simp] theorem render_wrap (markup : Markup) (category : Category) (text : List Char) :
    Render.wrap markup category text = markup.wrap category text := rfl

end Markup

namespace Entity

/-- The character has to be written as an entity in the text of a page. -/
def isSpecial (character : Char) : Bool :=
  character = '&' || character = '<' || character = '>'

/-- A character as it is written in the text of a page. -/
def ofTextCharacter : Char → List Char
  | '&' => "&amp;".toList
  | '<' => "&lt;".toList
  | '>' => "&gt;".toList
  | character => [character]

/-- A character as it is written where attributes may hold it: quotes are entities
too. -/
def ofAttributeCharacter : Char → List Char
  | '"' => "&quot;".toList
  | '\'' => "&#39;".toList
  | character => ofTextCharacter character

/-- A text as it is written in a page. -/
def escape (text : List Char) : List Char := text.flatMap ofTextCharacter

/-- A text as it is written where attributes may hold it. -/
def escapeAttribute (text : List Char) : List Char := text.flatMap ofAttributeCharacter

/-- The text can stand in a page as it is. -/
def isPlain (text : String) : Bool := !text.toList.any isSpecial

/-- A text as it is written in a page. A plain text is returned as it is. -/
def escapeText (text : String) : String :=
  if isPlain text then text else String.ofList (escape text.toList)

end Entity

end Highlighter

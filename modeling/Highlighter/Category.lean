/-!
# Categories of code

The kinds of text that highlighting tells apart, and the class attribute that marks each
of them in the markup.
-/

namespace Highlighter

/-- A kind of text within code. -/
inductive Category where
  | keyword | literal | function | number | type | comment
  /-- Known to stylesheets, but never marked: a name takes on the looks of what it stands
  in. -/
  | identifier
  deriving DecidableEq, Repr

/-- The class attribute that marks text of the category. -/
def Category.className : Category → String
  | keyword => "code-keyword"
  | literal => "code-literal"
  | function => "code-function"
  | number => "code-number-literal"
  | type => "code-class"
  | comment => "code-comment"
  | identifier => "code-identifier"

end Highlighter

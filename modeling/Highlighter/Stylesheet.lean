import Highlighter.Category

/-!
# The stylesheet

Each category that is marked has a rule with its colour. Words within a comment have been
marked too, so a last rule gives them back the looks of the comment.
-/

namespace Highlighter

/-- How text of a category looks. -/
structure Style where
  category : Category
  colour : String
  bold : Bool := false
  italic : Bool := false

namespace Style

/-- The looks of all categories that are marked. -/
def all : List Style :=
  [{ category := .keyword, colour := "#75507b", bold := true },
   { category := .literal, colour := "#4e9a06" },
   { category := .function, colour := "#3465a4", bold := true },
   { category := .number, colour := "#ad7fa8" },
   { category := .type, colour := "#8f5902", bold := true },
   { category := .comment, colour := "#999999", italic := true }]

/-- The rule of a category, a line of the stylesheet. -/
def rule (style : Style) : String :=
  "." ++ style.category.className ++ " \x7b color: " ++ style.colour ++ ";" ++
    (if style.bold then " font-weight: bold;" else "") ++
    (if style.italic then " font-style: italic;" else "") ++ " \x7d\n"

end Style

/-- The rules for all class names that highlighting puts into a page. -/
def stylesheet : String :=
  String.join (Style.all.map Style.rule) ++
    ".code-comment span \x7b color: inherit; font-weight: inherit; \x7d\n"

end Highlighter

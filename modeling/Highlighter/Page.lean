import Highlighter.Log
import Highlighter.Markup
import Highlighter.Stylesheet

/-!
# Pages

A page holds highlighted text together with its stylesheet. Title and language are plain
text and are escaped; the markup stands in the page as it is.
-/

namespace Highlighter

/-- What a page is made of. -/
structure Page where
  title : String
  language : String
  /-- Highlighted text, already in the form in which a page holds it. -/
  markup : String
  deriving DecidableEq, Repr

namespace Page

/-- What stands before the title. -/
def beforeTitle : String := "<!DOCTYPE html>\n<html>\n<head>\n<meta charset=\"utf-8\">\n<title>"

/-- What stands between the title and the language. -/
def beforeLanguage : String :=
  "</title>\n<style>\npre.code \x7b font-family: \"Inconsolata\", monospace; \x7d\n" ++
    stylesheet ++ "</style>\n</head>\n<body>\n<pre class=\"code\" data-language=\""

/-- What stands between the language and the markup. -/
def beforeMarkup : String := "\">"

/-- What stands behind the markup. -/
def ending : String := "</pre>\n</body>\n</html>\n"

/-- The text of a page. -/
def render (page : Page) : String :=
  beforeTitle ++ String.ofList (Entity.escapeAttribute page.title.toList) ++ beforeLanguage ++
    String.ofList (Entity.escapeAttribute page.language.toList) ++ beforeMarkup ++ page.markup ++
    ending

/-- What is told about a page. -/
def log (page : Page) : Message := .rendered page.render.utf8ByteSize

end Page

end Highlighter

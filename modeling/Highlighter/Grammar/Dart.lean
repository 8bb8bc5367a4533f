import Highlighter.Grammar.Basic

/-!
# The grammar of Dart

The language that is known without a description. Its literals keep off the quotes of
class attributes: in the markup such a quote is followed by `>` or ends in front of one.
-/

namespace Highlighter.Grammar

/-- The words of Dart that are reserved or have a meaning of their own. -/
def dartKeywords : List String :=
  ["abstract", "else", "import", "show", "as", "enum", "in", "static", "assert", "export",
   "interface", "super", "async\\*?", "extends", "is", "switch", "await", "extension", "late",
   "sync\\*?", "break", "external", "library", "this", "case", "factory", "mixin", "throw",
   "catch", "false", "new", "true", "class", "final", "null", "try", "const", "finally", "on",
   "typedef", "continue", "for", "operator", "var", "covariant", "Function", "part", "void",
   "default", "get", "required", "while", "deferred", "hide", "rethrow", "with", "do", "if",
   "return", "yield", "dynamic", "implements", "set"]

/-- The grammar of Dart. -/
def dart : Grammar where
  name := "dart"
  extensions := ["dart"]
  comments := some ⟨"(//[^\\n]*)|(/\\*.*?\\*/)", Flags.dotAll⟩
  keywords := some (Pattern.keywords dartKeywords)
  numbers := some ⟨"\\b\\d+(\\.\\d+)?\\b", {}⟩
  literals := some
    (⟨"'(?!>)((\\\\')|[^'])*'(?!>)", {}⟩ ++ ⟨"|\"(?!>)((\\\\\")|[^\"])*\"(?!>)", {}⟩)
  classes := some
    ⟨"\\b((int)|(bool)|(double)|(num)|([A-Z][A-Za-z]*(<[\\w?]+>)?(\\(.*\\))?))\\b", {}⟩
  identifiers := some ⟨"\\b[a-zA-Z_]\\w*\\b", {}⟩

end Highlighter.Grammar

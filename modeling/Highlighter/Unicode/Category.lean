import Highlighter.Unicode.CategoryTable
import Highlighter.Unicode.Runs

/-!
# General categories

Every code point has one general category. Pattern syntax names a category by its
two-letter code or its long name, and names some unions of categories in the same way.
-/

namespace Highlighter.Unicode

/-- The general categories, named as the standard's long names are. -/
inductive Category where
  | uppercaseLetter | lowercaseLetter | titlecaseLetter | modifierLetter | otherLetter
  | nonspacingMark | spacingMark | enclosingMark
  | decimalNumber | letterNumber | otherNumber
  | connectorPunctuation | dashPunctuation | openPunctuation | closePunctuation
  | initialPunctuation | finalPunctuation | otherPunctuation
  | mathSymbol | currencySymbol | modifierSymbol | otherSymbol
  | spaceSeparator | lineSeparator | paragraphSeparator
  | control | format | surrogate | privateUse | unassigned
  deriving DecidableEq, Repr

namespace Category

/-- The two-letter code of each category. -/
def codes : List (String × Category) :=
  [("Lu", uppercaseLetter), ("Ll", lowercaseLetter), ("Lt", titlecaseLetter),
   ("Lm", modifierLetter), ("Lo", otherLetter), ("Mn", nonspacingMark), ("Mc", spacingMark),
   ("Me", enclosingMark), ("Nd", decimalNumber), ("Nl", letterNumber), ("No", otherNumber),
   ("Pc", connectorPunctuation), ("Pd", dashPunctuation), ("Ps", openPunctuation),
   ("Pe", closePunctuation), ("Pi", initialPunctuation), ("Pf", finalPunctuation),
   ("Po", otherPunctuation), ("Sm", mathSymbol), ("Sc", currencySymbol),
   ("Sk", modifierSymbol), ("So", otherSymbol), ("Zs", spaceSeparator),
   ("Zl", lineSeparator), ("Zp", paragraphSeparator), ("Cc", control), ("Cf", format),
   ("Cs", surrogate), ("Co", privateUse), ("Cn", unassigned)]

/-- The category with the given two-letter code. -/
def ofCode? (code : String) : Option Category := codes.lookup code

/-- The categories of all code points. -/
def table : Runs Category := Runs.ofText unassigned ofCode? categoryRuns

/-- The category of a character. -/
def of (character : Char) : Category :=
  (table.find? character.toNat).getD unassigned

/-- Letters of any case, and letters without case. -/
def letters : List Category :=
  [uppercaseLetter, lowercaseLetter, titlecaseLetter, modifierLetter, otherLetter]

/-- Letters with case. -/
def casedLetters : List Category := [uppercaseLetter, lowercaseLetter, titlecaseLetter]

/-- Characters that combine with the one before them. -/
def marks : List Category := [nonspacingMark, spacingMark, enclosingMark]

/-- Digits and other numbers. -/
def numbers : List Category := [decimalNumber, letterNumber, otherNumber]

/-- Punctuation of every kind. -/
def punctuation : List Category :=
  [connectorPunctuation, dashPunctuation, openPunctuation, closePunctuation,
   initialPunctuation, finalPunctuation, otherPunctuation]

/-- Symbols of every kind. -/
def symbols : List Category := [mathSymbol, currencySymbol, modifierSymbol, otherSymbol]

/-- Blanks and breaks. -/
def separators : List Category := [spaceSeparator, lineSeparator, paragraphSeparator]

/-- Code points that carry no graphic character. -/
def others : List Category := [control, format, surrogate, privateUse, unassigned]

/-- The names of categories and of their unions, in lower case and without separators.
The two-letter codes are names too. -/
def names : List (String × List Category) :=
  codes.map (fun entry => (entry.1.toLower, [entry.2])) ++
  [("l", letters), ("letter", letters), ("lc", casedLetters), ("casedletter", casedLetters),
   ("m", marks), ("mark", marks), ("combiningmark", marks), ("n", numbers),
   ("number", numbers), ("p", punctuation), ("punctuation", punctuation),
   ("punct", punctuation), ("s", symbols), ("symbol", symbols), ("z", separators),
   ("separator", separators), ("c", others), ("other", others),
   ("uppercaseletter", [uppercaseLetter]), ("lowercaseletter", [lowercaseLetter]),
   ("titlecaseletter", [titlecaseLetter]), ("modifierletter", [modifierLetter]),
   ("otherletter", [otherLetter]), ("nonspacingmark", [nonspacingMark]),
   ("spacingmark", [spacingMark]), ("enclosingmark", [enclosingMark]),
   ("decimalnumber", [decimalNumber]), ("digit", [decimalNumber]),
   ("letternumber", [letterNumber]), ("othernumber", [otherNumber]),
   ("connectorpunctuation", [connectorPunctuation]), ("dashpunctuation", [dashPunctuation]),
   ("openpunctuation", [openPunctuation]), ("closepunctuation", [closePunctuation]),
   ("initialpunctuation", [initialPunctuation]), ("finalpunctuation", [finalPunctuation]),
   ("otherpunctuation", [otherPunctuation]), ("mathsymbol", [mathSymbol]),
   ("currencysymbol", [currencySymbol]), ("modifiersymbol", [modifierSymbol]),
   ("othersymbol", [otherSymbol]), ("spaceseparator", [spaceSeparator]),
   ("lineseparator", [lineSeparator]), ("paragraphseparator", [paragraphSeparator]),
   ("control", [control]), ("cntrl", [control]), ("format", [format]),
   ("surrogate", [surrogate]), ("privateuse", [privateUse]), ("unassigned", [unassigned])]

end Category

end Highlighter.Unicode

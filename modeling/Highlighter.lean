import Highlighter.Main
import Highlighter.Proofs.Command.Influence
import Highlighter.Proofs.Dart.Comments
import Highlighter.Proofs.Dart.Literals
import Highlighter.Proofs.Dart.Types
import Highlighter.Proofs.Dart.Words
import Highlighter.Proofs.Grammar.Flags
import Highlighter.Proofs.Grammar.Names
import Highlighter.Proofs.Grammar.Silence
import Highlighter.Proofs.Grammar.WordLists
import Highlighter.Proofs.Highlight.Absence
import Highlighter.Proofs.Highlight.Failure
import Highlighter.Proofs.Highlight.Injection
import Highlighter.Proofs.Highlight.Integrity
import Highlighter.Proofs.Highlight.Layers
import Highlighter.Proofs.Highlight.Locality
import Highlighter.Proofs.Highlight.Repetition
import Highlighter.Proofs.Highlight.Runs
import Highlighter.Proofs.Page.Parts
import Highlighter.Proofs.Registry.Names
import Highlighter.Source.Directory

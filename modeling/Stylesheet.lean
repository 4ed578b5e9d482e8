import Stylesheet.Main
import Stylesheet.Settings
import Stylesheet.Traversal.Trace
import Stylesheet.Proofs.AtOnce
import Stylesheet.Proofs.BufferOrder
import Stylesheet.Proofs.Evaluation.Arguments
import Stylesheet.Proofs.Evaluation.Blocks
import Stylesheet.Proofs.Evaluation.Isolation
import Stylesheet.Proofs.Evaluation.Loops
import Stylesheet.Proofs.Evaluation.Results
import Stylesheet.Proofs.Evaluation.Rules
import Stylesheet.Proofs.Grammar.Buffers
import Stylesheet.Proofs.Grammar.Strings
import Stylesheet.Proofs.Grammar.Termination
import Stylesheet.Proofs.Indentation.Columns
import Stylesheet.Proofs.Indentation.Comments
import Stylesheet.Proofs.Indentation.Keywords
import Stylesheet.Proofs.Layout.GroupEnds
import Stylesheet.Proofs.Layout.Queries
import Stylesheet.Proofs.Layout.Repeated
import Stylesheet.Proofs.Located
import Stylesheet.Proofs.Scope.Variables
import Stylesheet.Proofs.Selectors.Quotes
import Stylesheet.Proofs.Nesting.Places
import Stylesheet.Proofs.Outcome
import Stylesheet.Proofs.Css.Reread
import Stylesheet.Proofs.Css.Slashes
import Stylesheet.Proofs.Css.Calls
import Stylesheet.Proofs.Value.Equality
import Stylesheet.Proofs.Value.Numeral

import Stylesheet.Derivation
import Stylesheet.Proofs.Digest.Agreement
import Stylesheet.Proofs.Digest.History
import Stylesheet.Proofs.Text.RoundTrip
import Stylesheet.Scope
import Stylesheet.Value.Digest
import Stylesheet.Value.Outline
import Stylesheet.Value.Sharing
import Stylesheet.Proofs.Units.Cancel
import Stylesheet.Proofs.Units.Exponent
import Stylesheet.Proofs.Units.Worth
import Stylesheet.Proofs.Map.Association
import Stylesheet.Proofs.Map.Insertion
import Stylesheet.Proofs.Reduction.Outcome
import Stylesheet.Proofs.Reduction.NormalForm
import Stylesheet.Proofs.Reduction.Idempotence
import Stylesheet.Proofs.Map.Extensionality
import Stylesheet.Proofs.Double.One
import Stylesheet.Proofs.Reduction.DuplicateKey
import Stylesheet.Proofs.Text.Nested
import Stylesheet.Proofs.Units.Mismatch
import Stylesheet.Proofs.Units.Comparison
import Stylesheet.Proofs.Reduction.Dependence
import Stylesheet.Proofs.Scope.Block
import Stylesheet.Proofs.Double.Remainder
import Stylesheet.Proofs.Color.Exact
import Stylesheet.Proofs.Color.History
import Stylesheet.Proofs.Color.RoundTrip
import Stylesheet.Proofs.Units.Residue
import Stylesheet.Proofs.Operation.Dimension
import Stylesheet.Proofs.Operation.Failure
import Stylesheet.Proofs.Reduction.Interpolation
import Stylesheet.Proofs.Reduction.Template
import Stylesheet.Proofs.Reduction.Logical
import Stylesheet.Proofs.Operation.Comparison
import Stylesheet.Proofs.Reduction.Failure
import Stylesheet.Proofs.Reduction.Precedence
import Stylesheet.Proofs.Value.Delay
import Stylesheet.Proofs.Value.Visibility
import Stylesheet.Proofs.Value.Print
import Stylesheet.Proofs.Value.Unmarked
import Stylesheet.Proofs.Operation.Unmarked
import Stylesheet.Proofs.Reduction.Remarked
import Stylesheet.Proofs.Text.Acceptance
import Stylesheet.Proofs.Text.CodePoint
import Stylesheet.Proofs.Text.Decoding
import Stylesheet.Proofs.Units.Spelling
import Stylesheet.Proofs.Double.Shortening
import Stylesheet.Proofs.Value.Trim
import Stylesheet.Proofs.Value.Sharing
import Stylesheet.Proofs.Value.Outline
import Stylesheet.Proofs.Reduction.Asked
import Stylesheet.Proofs.Color.Range
import Stylesheet.Proofs.Color.Turn
import Stylesheet.Proofs.Operation.Fallback
import Stylesheet.Proofs.Operation.Joining
import Stylesheet.Proofs.Span.Merge

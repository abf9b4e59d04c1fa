import ExprForest.Forest.Json
import ExprForest.Forest.Parse
import ExprForest.Operator.Json
import ExprForest.ParseError.Report
import ExprForest.Proofs.Engine.Lifecycle
import ExprForest.Proofs.Forest.Bytes
import ExprForest.Proofs.Statement.ErrorPlace
import ExprForest.Proofs.Statement.Flattening
import ExprForest.Proofs.SymbolTable.FiniteMap
import ExprForest.Settings.Json
import ExprForest.Span.Json
import ExprForest.Statement.Derivation
import ExprForest.Status.Json
import ExprForest.SymbolTable
import ExprForest.Tree.HostCode
import ExprForest.Proofs.Statement.NestingLimit
import ExprForest.Proofs.Tree.Building
import ExprForest.Statement.Descent
import ExprForest.Proofs.Statement.DeadEnds
import ExprForest.Proofs.Statement.Descent
import ExprForest.Proofs.Forest.FailureKinds
import ExprForest.Proofs.Json.Steps
import ExprForest.Proofs.Json.Strings
import ExprForest.Proofs.Json.Numerals
import ExprForest.Proofs.Json.ReadBack
import ExprForest.Proofs.Json.Objects
import ExprForest.Proofs.Tree.RoundTrip
import ExprForest.Proofs.Forest.RoundTrip
import ExprForest.Proofs.Statement.DescentDepth
import ExprForest.Proofs.Decimal.Unsigned
import ExprForest.Proofs.Statement.Image
import ExprForest.Proofs.Statement.Composition
import ExprForest.Proofs.Forest.Concatenation
import ExprForest.Proofs.Lexical.Pass
import ExprForest.Proofs.Statement.Spacing
import ExprForest.Proofs.Forest.BlankLines
import ExprForest.Proofs.Decimal.Rounding
import ExprForest.Proofs.Decimal.Range
import ExprForest.Proofs.Decimal.Intervals
import ExprForest.Proofs.Decimal.Literals
import ExprForest.Proofs.Forest.HostForm
import ExprForest.Proofs.Forest.Rows
import ExprForest.Proofs.Forest.Partition
import ExprForest.Proofs.Forest.SkippedLines
import ExprForest.Proofs.Forest.LineEndings
import ExprForest.Proofs.Statement.Expectations
import ExprForest.Proofs.SymbolTable.Insertion
import ExprForest.Proofs.Tree.Equality
import ExprForest.Proofs.Tree.HostForm
import ExprForest.Proofs.Decimal.Texts
import ExprForest.Proofs.Tree.PrefixForm
import ExprForest.Proofs.SymbolTable.Shape
import ExprForest.Proofs.Engine.Protocol
import ExprForest.Proofs.Json.Decisions
import ExprForest.Proofs.Tree.Measures
import ExprForest.Proofs.Json.Spelling
import ExprForest.Proofs.Json.Scalars
import ExprForest.Proofs.Json.Members
import ExprForest.Proofs.Settings.Members
import ExprForest.Proofs.Settings.Acceptance
import ExprForest.Proofs.Text.Columns
import ExprForest.Proofs.Span.Arithmetic

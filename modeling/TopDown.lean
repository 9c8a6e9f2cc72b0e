import TopDown.Analysis.Basic
import TopDown.Analysis.First
import TopDown.Analysis.Follow
import TopDown.Analysis.Nullable
import TopDown.Analysis.Predict
import TopDown.Analysis.Saturation
import TopDown.Build
import TopDown.Definition.Cursor
import TopDown.Definition.Error
import TopDown.Definition.Gap
import TopDown.Definition.Lexeme
import TopDown.Definition.Location
import TopDown.Definition.Reading
import TopDown.Definition.Token
import TopDown.Definition.TokenStream
import TopDown.Grammar.Basic
import TopDown.Grammar.Lookahead
import TopDown.Grammar.Numbered
import TopDown.LookaheadSet.Basic
import TopDown.LookaheadSet.Members
import TopDown.Parsing.Input
import TopDown.Parsing.Parser
import TopDown.Parsing.Tree
import TopDown.Proofs.Attempt
import TopDown.Proofs.Choice
import TopDown.Proofs.Completeness
import TopDown.Proofs.Definition.Characters
import TopDown.Proofs.Derivation
import TopDown.Proofs.DerivationTree
import TopDown.Proofs.Failure
import TopDown.Proofs.First
import TopDown.Proofs.Follow
import TopDown.Proofs.Kinds
import TopDown.Proofs.LL1
import TopDown.Proofs.LeftRecursion
import TopDown.Proofs.Leftmost
import TopDown.Proofs.Lookahead
import TopDown.Proofs.LookaheadSet
import TopDown.Proofs.NumberedDerivation
import TopDown.Proofs.Numbering
import TopDown.Proofs.OpenCalls
import TopDown.Proofs.Outcome
import TopDown.Proofs.Predict
import TopDown.Proofs.Reading
import TopDown.Proofs.Rewriting
import TopDown.Proofs.Saturation
import TopDown.Proofs.Soundness
import TopDown.Proofs.Termination
import TopDown.Text.CharLiteral
import TopDown.Trace
import TopDown.Unicode.Alphabetic
import TopDown.Unicode.GraphemeExtend
import TopDown.Unicode.Numeric
import TopDown.Unicode.Printable
import TopDown.Unicode.Range
import TopDown.Unicode.WhiteSpace
import TopDown.Proofs.Definition.Gap
import TopDown.Proofs.Definition.Lexeme
import TopDown.Proofs.Definition.Tokens
import TopDown.Proofs.Definition.LexicalFormat
import TopDown.Proofs.Definition.Clauses
import TopDown.Proofs.Definition.Reading
import TopDown.Proofs.Definition.RoundTrip
import TopDown.Proofs.Definition.EarliestError
import TopDown.Proofs.Acceptance
import TopDown.Proofs.FollowDerivation
import TopDown.Proofs.Tables
import TopDown.Proofs.Extension
import TopDown.Proofs.Exactness
import TopDown.Proofs.Reordering
import TopDown.Proofs.ReorderedParsing
import TopDown.Proofs.Conflicts
import TopDown.Proofs.PlacedTrees
import TopDown.Proofs.Checked.Saturation
import TopDown.Proofs.Checked.Tables
import TopDown.Proofs.Checked.Analysis
import TopDown.Proofs.Checked.Accessors
import TopDown.Proofs.Checked.Parsing
import TopDown.Proofs.Definition.ExpectedKinds
import TopDown.Proofs.Sweeps
import TopDown.Proofs.Convergence
import TopDown.Proofs.Registration
import TopDown.Proofs.Interning
import TopDown.Proofs.Equations
import TopDown.Proofs.Definition.Places
import TopDown.Proofs.Definition.SlicedScan
import TopDown.Proofs.Definition.Calls
import TopDown.Proofs.Definition.Placement
import TopDown.Proofs.Definition.FirstFault
import TopDown.Proofs.Definition.Descent
import TopDown.Proofs.ExpansionTrace
import TopDown.Proofs.RenderedTrees
import TopDown.Proofs.Checked.Words
import TopDown.Proofs.FiniteSets

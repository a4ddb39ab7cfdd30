import ParserGraph.Main
import ParserGraph.Proofs.Peg.Adequacy
import ParserGraph.Proofs.Validation.Nullable
import ParserGraph.Proofs.Validation.Leading
import ParserGraph.Proofs.Validation.Nesting
import ParserGraph.Proofs.Grammar.Agreement
import ParserGraph.Proofs.Graph.Release
import ParserGraph.Proofs.Graph.History
import ParserGraph.Proofs.Operation.Lifetime
import ParserGraph.Proofs.Run.Settled
import ParserGraph.Proofs.Language.Layout
import ParserGraph.Proofs.Language.Written
import ParserGraph.Proofs.Language.Tree
import ParserGraph.Proofs.Language.Token
import ParserGraph.Proofs.Language.Soundness
import ParserGraph.Proofs.Language.Completeness
import ParserGraph.Proofs.Language.Meaning
import ParserGraph.Proofs.Language.Reading
import ParserGraph.Proofs.Run.Failure
import ParserGraph.Proofs.Language.Recognition
import ParserGraph.Proofs.Language.Definitions
import ParserGraph.Proofs.Grammar.Spelling
import ParserGraph.Proofs.Validation.Progress
import ParserGraph.Proofs.Run.Location
import ParserGraph.Proofs.Operation.Bounds
import ParserGraph.Proofs.Graph.Likeness
import ParserGraph.Proofs.Run.Likeness
import ParserGraph.Proofs.Validation.Likeness
import ParserGraph.Proofs.Grammar.Totality
import ParserGraph.Proofs.Grammar.Order
import ParserGraph.Proofs.Validation.Decision
import ParserGraph.Proofs.Run.Limit
import ParserGraph.Proofs.Operation.Failures
import ParserGraph.Proofs.Operation.Frame
import ParserGraph.Proofs.Grammar.Orphans
import ParserGraph.Proofs.Operation.Dangling
import ParserGraph.Proofs.Tree.Normal
import ParserGraph.Proofs.Grammar.Normal
import ParserGraph.Proofs.Grammar.Acceptance
import ParserGraph.Proofs.Grammar.Refusal
import ParserGraph.Proofs.Grammar.Late
import ParserGraph.Proofs.Run.GivenUp
import ParserGraph.Proofs.Run.Faithful
import ParserGraph.Proofs.Run.Repetition
import ParserGraph.Proofs.Run.Furthest
import ParserGraph.Proofs.Run.Descent
import ParserGraph.Proofs.Run.Merging
import ParserGraph.Proofs.Tree.Flattening
import ParserGraph.Proofs.Tree.Decoding
import ParserGraph.Proofs.Run.Undefined
import ParserGraph.Proofs.Operation.Recursion
import ParserGraph.Proofs.Language.Rewriting
import ParserGraph.Proofs.Validation.Nearest
import ParserGraph.Proofs.Validation.Sweeps
import ParserGraph.Proofs.CommandLine.Outcome
import ParserGraph.Proofs.Run.Order

import LazyLisp.Expr.Source
import LazyLisp.Main
import LazyLisp.Proofs.Expr.Every
import LazyLisp.Proofs.Expr.Free
import LazyLisp.Proofs.Expr.Sameness
import LazyLisp.Proofs.Expr.Unambiguity
import LazyLisp.Proofs.Evaluation.CallByName
import LazyLisp.Proofs.Evaluation.Restoration
import LazyLisp.Proofs.Evaluation.Agreement
import LazyLisp.Proofs.Evaluation.Resolution
import LazyLisp.Proofs.Evaluation.Lockstep
import LazyLisp.Proofs.Evaluation.ScopeSafety
import LazyLisp.Proofs.Evaluation.Coincidence
import LazyLisp.Proofs.Evaluation.Laziness
import LazyLisp.Proofs.Evaluation.Inlining
import LazyLisp.Proofs.Evaluation.Depth
import LazyLisp.Proofs.Evaluation.Substitution
import LazyLisp.Proofs.Evaluation.Renaming
import LazyLisp.Proofs.Evaluation.Values
import LazyLisp.Proofs.Evaluation.Sharing
import LazyLisp.Proofs.Evaluation.Termination
import LazyLisp.Proofs.Evaluation.Arithmetic
import LazyLisp.Proofs.Evaluation.OperandOrder
import LazyLisp.Proofs.Reading.Grammar
import LazyLisp.Proofs.Reading.Lexing
import LazyLisp.Proofs.Reading.Layout
import LazyLisp.Proofs.Reading.Numerals
import LazyLisp.Proofs.Reading.Legible
import LazyLisp.Proofs.Reading.RoundTrip
import LazyLisp.Proofs.Reading.Nesting
import LazyLisp.Proofs.Reading.Stability
import LazyLisp.Proofs.Program.Definitions
import LazyLisp.Proofs.Program.Rearrangement
import LazyLisp.Proofs.Program.Redefinition
import LazyLisp.Proofs.Program.Transcript
import LazyLisp.Proofs.Reading.Failure
import LazyLisp.Proofs.Reading.Budget
import LazyLisp.Proofs.Reading.Progress
import LazyLisp.Proofs.Reading.Forest
import LazyLisp.Proofs.Reading.Nodes
import LazyLisp.Proofs.Reading.DeclaredNames
import LazyLisp.Proofs.Reading.Declarations
import LazyLisp.Proofs.Evaluation.Isolation
import LazyLisp.Proofs.Command.Reporting
import LazyLisp.Proofs.Reading.WellFormed
import LazyLisp.Proofs.Text.Trailing
import LazyLisp.Proofs.Text.Escape

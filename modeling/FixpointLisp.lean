import FixpointLisp.Console.Completion
import FixpointLisp.Console.Highlight
import FixpointLisp.Main
import FixpointLisp.Proofs.Eval.Settled
import FixpointLisp.Proofs.Eval.Snapshot
import FixpointLisp.Proofs.Eval.Spelling
import FixpointLisp.Value.Inspect
import FixpointLisp.Proofs.Expr.Spans
import FixpointLisp.Proofs.Eval.Positions
import FixpointLisp.Proofs.Eval.Culprit
import FixpointLisp.Proofs.Eval.Chains
import FixpointLisp.Proofs.Expr.Nesting
import FixpointLisp.Proofs.Token.Lexemes
import FixpointLisp.Proofs.Console.Scan
import FixpointLisp.Proofs.Console.Batch
import FixpointLisp.Proofs.Token.Patterns
import FixpointLisp.Proofs.Token.Layout
import FixpointLisp.Proofs.Expr.Readback
import FixpointLisp.Proofs.Expr.Printing
import FixpointLisp.Proofs.Expr.Location
import FixpointLisp.Proofs.Eval.Rounds
import FixpointLisp.Proofs.Eval.Application
import FixpointLisp.Proofs.Eval.Cycles
import FixpointLisp.Proofs.Eval.Contracts
import FixpointLisp.Proofs.Eval.LambdaFree
import FixpointLisp.Proofs.Eval.Splitting
import FixpointLisp.Proofs.Eval.Rebinding
import FixpointLisp.Proofs.Eval.Literals
import FixpointLisp.Proofs.Console.Verdict
import FixpointLisp.Proofs.Console.Decoration
import FixpointLisp.Proofs.Console.Cursor
import FixpointLisp.Proofs.Value.Equality
import FixpointLisp.Proofs.Eval.Operands
import FixpointLisp.Proofs.Eval.Slicing
import FixpointLisp.Proofs.Console.Completion
import FixpointLisp.Proofs.Token.Locality
import FixpointLisp.Proofs.Eval.Edits
import FixpointLisp.Proofs.Report.Whole

import ValueFlow.Main
import ValueFlow.Proofs.Flow.Arguments
import ValueFlow.Proofs.Flow.Order
import ValueFlow.Proofs.Flow.Alignment
import ValueFlow.Proofs.Flow.Interning
import ValueFlow.Proofs.Flow.Diagnostics
import ValueFlow.Proofs.Flow.Aliases
import ValueFlow.Proofs.Flow.Collapse
import ValueFlow.Proofs.Flow.Catching
import ValueFlow.Proofs.Grammar.RoundTrip
import ValueFlow.Proofs.Flow.Copying
import ValueFlow.Proofs.Rejections
import ValueFlow.Proofs.Flow.Matching
import ValueFlow.Proofs.Token.Nesting
import ValueFlow.Proofs.Grammar.Precedence
import ValueFlow.Proofs.Ast.Order
import ValueFlow.Proofs.Ast.Statements
import ValueFlow.Proofs.Paths
import ValueFlow.Proofs.Scope.Parameters
import ValueFlow.Proofs.Token.Quoting
import ValueFlow.Proofs.Equations.Upkeep
import ValueFlow.Proofs.Flow.Spreads
import ValueFlow.Proofs.Flow.Promises

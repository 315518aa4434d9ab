import QueryPlan.Json.Printer
import QueryPlan.Json.Reader
import QueryPlan.Plan.Visit
import QueryPlan.Proofs.Analysis.Closure
import QueryPlan.Proofs.Analysis.Components
import QueryPlan.Proofs.Analysis.InferenceSoundness
import QueryPlan.Proofs.Analysis.NameBlind
import QueryPlan.Proofs.Analysis.Positions
import QueryPlan.Proofs.Analysis.Restatement
import QueryPlan.Proofs.Analysis.Soundness
import QueryPlan.Proofs.Equality
import QueryPlan.Proofs.Expr.NameBlind
import QueryPlan.Proofs.Expr.Printing
import QueryPlan.Proofs.Expr.TotalOrder
import QueryPlan.Proofs.Json.RoundTrip
import QueryPlan.Proofs.Optimizer.Limits
import QueryPlan.Proofs.Optimizer.NameBlind
import QueryPlan.Proofs.Optimizer.Operators
import QueryPlan.Proofs.Optimizer.Range
import QueryPlan.Proofs.Plan.NameBlind
import QueryPlan.Proofs.Plan.Printing
import QueryPlan.Proofs.Plan.Visiting
import QueryPlan.Proofs.Qualify.Correlation
import QueryPlan.Proofs.Qualify.Declining
import QueryPlan.Proofs.Qualify.HavingScope
import QueryPlan.Proofs.Qualify.Meaning
import QueryPlan.Proofs.Qualify.NameBlind
import QueryPlan.Proofs.Qualify.Reuse
import QueryPlan.Proofs.Semantics.Conjunction
import QueryPlan.Proofs.Semantics.Substitution
import QueryPlan.Session

import QueryPlan.Analysis.Derived
import QueryPlan.Analysis.Inference

/-!
Predicates that hold for every row a plan produces. Filters contribute their conditions. Joins
combine the facts about their inputs, and drop those about a side that is hidden or may be padded
with nulls. Projections and aggregations restate facts in terms of the columns they produce. At
each node the facts are completed by inference and then cut down to those that read no column
other than the node's own.
-/
namespace QueryPlan.EffectivePredicates

/-- Restates the predicates over the columns that `producers` puts in place of expressions. -/
def restate (predicates : Conjuncts) (producers : Substitution) : Conjuncts :=
  .ofList ((Expr.andAll predicates.toList).substitute producers).conjuncts

/-- The facts a filter adds: its terms, except subquery predicates that read outer columns. -/
def filterFacts (predicates : Conjuncts) : List Expr :=
  (predicates.toList.flatMap Expr.conjuncts).filter fun p => !p.isCorrelatedSubquery

/-- Each computed column in place of its expression; of several the first counts. -/
def projectProducers (projections : List NamedExpr) : Substitution :=
  (projections.filterMap NamedExpr.alias?).map fun a => (a.expr, .slot a.slot)

/-- Each column computed from an aggregate in place of its expression; of several the last
counts. -/
def aggregateProducers (outputs : List NamedExpr) : Substitution :=
  ((outputs.filter fun o => o.expr.containsAggregate).map fun o =>
    (o.expr, Expr.slot o.slot)).reverse

def joinFacts (join : Join) (left right : Conjuncts) : Option Conjuncts :=
  let terms := join.condition.toList.flatMap Expr.conjuncts
  match join.kind with
  | .inner | .cross => some (.ofList (left.toList ++ right.toList ++ terms))
  | .leftSemi => some (.ofList (left.toList ++ terms))
  | .rightSemi => some (.ofList (right.toList ++ terms))
  | .leftOuter | .leftAnti => some left
  | .rightOuter | .rightAnti => some right
  | .fullOuter | .nullAwareLeftAnti => none

def facts (node : Plan) (inputs : List Conjuncts) : Option Conjuncts :=
  match node, inputs with
  | .filter _ predicates, [below] =>
    some ((SortedSet.ofList (filterFacts predicates)).extend below.toList)
  | .project _ projections _, [below] => some (restate below (projectProducers projections))
  | .aggregate _ _ outputs, [below] => some (restate below (aggregateProducers outputs))
  | .join join _ _, [left, right] => joinFacts join left right
  | _, _ => none

/-- Completes the predicates by inference, then keeps those that read only the node's output. -/
def available (infer : Inference) (node : Plan) (predicates : Conjuncts) : Conjuncts :=
  (predicates.extend (infer predicates).toList).filter fun p =>
    p.inputSlots.isSubset node.outputSet

def analysis (infer : Inference) : Analysis Conjuncts := fun node inputs =>
  match facts node inputs with
  | some predicates => available infer node predicates
  | none => .empty

end EffectivePredicates

/-- The predicates known to hold for every row of the plan. -/
def Plan.effectivePredicates (infer : Inference) (plan : Plan) : Conjuncts :=
  (Derived.of (EffectivePredicates.analysis infer) plan).root?.getD .empty

end QueryPlan

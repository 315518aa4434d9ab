import QueryPlan.Qualify.Aggregation

/-!
Completion throughout a plan. `Plan.completeQualify?` completes the qualify at the root.
`Plan.sweepQualify` goes through the plan from the top down and completes every qualify it meets,
those inside what it has just put in place included; identifiers are handed out in that order.
-/
namespace QueryPlan

namespace Plan

/-- The completed plan, if the root is a qualify over one of the four shapes and its input lacks
columns the predicates refer to. -/
def completeQualify? (supply : Supply) : Plan → Option (Plan × Supply)
  | .qualify (.having (.aggregate input groupKey outputs) conditions) predicates =>
    (Plan.having (.aggregate input groupKey outputs) conditions).completeHavingAggregate?
      predicates supply
  | .qualify (.having (.project input projections distinct) conditions) predicates =>
    (Plan.having (.project input projections distinct) conditions).completeHavingProject?
      predicates supply
  | .qualify (.aggregate input groupKey outputs) predicates =>
    (Plan.aggregate input groupKey outputs).completeAggregate? predicates supply
  | .qualify (.project input projections distinct) predicates =>
    (Plan.project input projections distinct).completeProject? predicates supply
  | _ => none

end Plan

namespace Qualify

/-- Completes a qualify over an aggregation for as long as outputs are added: each time it stands
again beneath the projection that restores the outputs there were before. -/
def settle (predicates : Conjuncts) (conditions : Option Conjuncts) (groupKey : List Expr)
    (r : Resolution) : Frame × Supply :=
  let next := resolve groupKey predicates r
  if _grown : r.outputs.length < next.2.outputs.length then
    let (frame, supply) := settle next.1 conditions groupKey next.2
    (fun input => (frame input).projectSlots (r.outputs.map NamedExpr.slot) false, supply)
  else if next.1 == predicates then
    (overAggregate groupKey r.outputs conditions predicates, r.supply)
  else
    (overAggregate groupKey next.2.outputs conditions next.1, next.2.supply)
termination_by measure groupKey r.outputs predicates
decreasing_by exact measure_resolve_lt _grown

end Qualify

namespace Plan

/-- Completes every qualify from the top down. Over a projection a qualify is complete once its rule
has been applied, and what the rule puts around it holds no other, so the sweep goes on below the
projection. -/
def sweepQualify : Plan → Supply → Plan × Supply
  | .get r, supply => (.get r, supply)
  | .join how left right, supply =>
    let (left, supply) := left.sweepQualify supply
    let (right, supply) := right.sweepQualify supply
    (.join how left right, supply)
  | .qualify (.having (.aggregate input groupKey outputs) conditions) predicates, supply =>
    let (frame, supply) := Qualify.settle predicates (some conditions) groupKey ⟨outputs, supply⟩
    let (input, supply) := input.sweepQualify supply
    (frame input, supply)
  | .qualify (.having (.project input projections distinct) conditions) predicates, supply =>
    let unchanged : Frame := fun input =>
      ((input.project projections distinct).having conditions).qualify predicates
    let (frame, supply) :=
      (Qualify.havingProjectFrame? predicates conditions projections distinct supply).getD
        (unchanged, supply)
    let (input, supply) := input.sweepQualify supply
    (frame input, supply)
  | .qualify (.aggregate input groupKey outputs) predicates, supply =>
    let (frame, supply) := Qualify.settle predicates none groupKey ⟨outputs, supply⟩
    let (input, supply) := input.sweepQualify supply
    (frame input, supply)
  | .qualify (.project input projections distinct) predicates, supply =>
    let unchanged : Frame := fun input => (input.project projections distinct).qualify predicates
    let (frame, supply) :=
      (Qualify.projectFrame? predicates projections distinct supply).getD (unchanged, supply)
    let (input, supply) := input.sweepQualify supply
    (frame input, supply)
  | .unary operator input, supply =>
    let (input, supply) := input.sweepQualify supply
    (.unary operator input, supply)

end Plan
end QueryPlan

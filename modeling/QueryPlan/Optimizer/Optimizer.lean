import QueryPlan.Optimizer.Pass

namespace QueryPlan

structure Optimizer where
  passes : List Pass

namespace Optimizer

def qualifyCompletion : Optimizer := ⟨[.fixpoint "fill_up_qualify" [.rule .fillUpQualify]]⟩

def optimize (optimizer : Optimizer) (config : Config) (plan : Plan) : Except PassError Plan :=
  let outcome := Pass.runAll config optimizer.passes plan plan.freshSupply
  match outcome.failure with
  | some e => .error e
  | none => .ok outcome.plan

def run (optimizer : Optimizer) (config : Config) (plan : Plan) : Outcome :=
  Pass.runAll config optimizer.passes plan plan.freshSupply

/-- `optimize` with identifiers of 64 bits. -/
def optimizeChecked (optimizer : Optimizer) (config : Config) (plan : Plan) :
    Except RunError Plan :=
  (optimizer.run config plan).checked

end Optimizer
end QueryPlan

import QueryPlan.Qualify.Sweep
import QueryPlan.Text.Quoted

/-!
Passes over plans. A pass takes a plan and a supply of fresh columns and leaves both behind, also
when it fails. A fixpoint repeats its passes until a round leaves the plan equal to what it was,
and fails when the allowed number of rounds has not sufficed.
-/
namespace QueryPlan

structure Config where
  fixpointLimit : Nat := 100
  enableFillUpQualify : Bool := true
  deriving DecidableEq

inductive PassError
  | internal (message : String)
  | fixpointLimit (name : String) (limit : Nat)
  deriving DecidableEq

def PassError.message : PassError → String
  | internal message => "internal transform error: " ++ message
  | fixpointLimit name limit =>
    "fixpoint " ++ name ++ " did not converge within " ++ toString limit ++ " iterations"

structure Outcome where
  plan : Plan
  supply : Supply
  failure : Option PassError

inductive RunError
  | overflow
  | pass (error : PassError)
  deriving DecidableEq

/-- What is returned when identifiers have 64 bits: running out of them cuts a run short, before
whatever else would have ended it. -/
def Outcome.checked (outcome : Outcome) : Except RunError Plan :=
  if outcome.supply.InRange then
    match outcome.failure with
    | some e => .error (.pass e)
    | none => .ok outcome.plan
  else .error .overflow

structure Rule where
  label : String
  run : Config → Plan → Supply → Outcome

inductive Pass
  | rule (rule : Rule)
  | fixpoint (name : String) (passes : List Pass)

def Rule.fillUpQualify : Rule where
  label := "FillUpQualifyMissingSlots"
  run config plan supply :=
    if config.enableFillUpQualify then
      let (plan, supply) := plan.sweepQualify supply
      ⟨plan, supply, none⟩
    else ⟨plan, supply, none⟩

namespace Pass

/-- Repeats a round until it leaves the plan equal, at most as many times as given. -/
def iterate (round : Plan → Supply → Outcome) (exhausted : PassError) :
    Nat → Plan → Supply → Outcome
  | 0, plan, supply => ⟨plan, supply, some exhausted⟩
  | limit + 1, plan, supply =>
    match round plan supply with
    | ⟨next, supply, some e⟩ => ⟨next, supply, some e⟩
    | ⟨next, supply, none⟩ =>
      if next == plan then ⟨next, supply, none⟩ else iterate round exhausted limit next supply

mutual

def run (config : Config) : Pass → Plan → Supply → Outcome
  | rule r => r.run config
  | fixpoint name passes =>
    iterate (runAll config passes) (.fixpointLimit name config.fixpointLimit)
      config.fixpointLimit

def runAll (config : Config) : List Pass → Plan → Supply → Outcome
  | [], plan, supply => ⟨plan, supply, none⟩
  | pass :: passes, plan, supply =>
    match pass.run config plan supply with
    | ⟨plan, supply, some e⟩ => ⟨plan, supply, some e⟩
    | ⟨plan, supply, none⟩ => runAll config passes plan supply

end

mutual

def describe : Pass → String
  | rule r => r.label
  | fixpoint name passes =>
    "Fixpoint \x7b name: " ++ Text.quote name ++ ", transforms: [" ++
      ", ".intercalate (describeAll passes) ++ "] \x7d"

def describeAll : List Pass → List String
  | [] => []
  | pass :: passes => pass.describe :: describeAll passes

end

end Pass
end QueryPlan

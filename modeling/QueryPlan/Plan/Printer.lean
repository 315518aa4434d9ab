import QueryPlan.Plan.Basic
import QueryPlan.Text.Document

/-!
Plans as text: one line per node, each operator above its inputs and the inputs two spaces deeper.
A line break inside a name is printed as it is.
-/
namespace QueryPlan

def bracketList (parts : List String) : String := "[" ++ commaList parts ++ "]"

def Conjuncts.render (predicates : Conjuncts) : String :=
  bracketList (predicates.toList.map Expr.render)

def Relation.header (r : Relation) : String :=
  "Get " ++ r.name ++ " " ++ bracketList (r.output.map Slot.render)

def Operator.header : Operator → String
  | project projections distinct =>
    "Project" ++ (if distinct then " distinct" else "") ++ " " ++
      bracketList (projections.map NamedExpr.render)
  | aggregate groupKey outputs =>
    "Aggregate group_key=" ++ bracketList (groupKey.map Expr.render) ++
      " outputs=" ++ bracketList (outputs.map NamedExpr.render)
  | filter predicates => "Filter " ++ predicates.render
  | having predicates => "Having " ++ predicates.render
  | qualify predicates => "Qualify " ++ predicates.render
  | limit count offset =>
    "Limit " ++ toString count.toNat ++ " offset=" ++ toString offset.toNat

def Join.header (j : Join) : String :=
  "Join " ++ j.kind.render ++
    match j.condition with
    | some e => " on=" ++ e.render
    | none => ""

namespace Plan

def header : Plan → String
  | get r => r.header
  | unary o _ => o.header
  | join j _ _ => j.header

def inset (above input : Document) : Document :=
  .append above (.nest 2 (.concat [.lineBreak, input]))

def document : Plan → Document
  | get r => .text r.header
  | unary o p => inset (.text o.header) p.document
  | join j p q => inset (inset (.text j.header) p.document) q.document

def render (p : Plan) : String := p.document.render

end Plan
end QueryPlan

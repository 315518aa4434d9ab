import QueryPlan.Expr.Conjunction
import QueryPlan.NamedExpr
import QueryPlan.Plan.JoinKind

namespace QueryPlan

structure Relation where
  name : String
  output : List Slot

instance : BEq Relation := ⟨fun a b => a.name == b.name && a.output == b.output⟩

inductive Operator
  | project (projections : List NamedExpr) (distinct : Bool)
  | aggregate (groupKey : List Expr) (outputs : List NamedExpr)
  | filter (predicates : Conjuncts)
  | having (predicates : Conjuncts)
  | qualify (predicates : Conjuncts)
  | limit (limit offset : UInt64)

namespace Operator

instance : BEq Operator where
  beq
    | project ps d, project qs e => ps == qs && d == e
    | aggregate ks os, aggregate ls ps => ks == ls && os == ps
    | filter ps, filter qs | having ps, having qs | qualify ps, qualify qs => ps == qs
    | limit n k, limit m l => n == m && k == l
    | _, _ => false

def output (below : List Slot) : Operator → List Slot
  | project projections _ => projections.map NamedExpr.slot
  | aggregate _ outputs => outputs.map NamedExpr.slot
  | filter _ | having _ | qualify _ | limit _ _ => below

/-- The expressions the operator holds, apart from columns passed through. -/
def expressions : Operator → List Expr
  | project projections _ => projections.filterMap fun p => p.alias?.map Alias.expr
  | aggregate groupKey outputs => groupKey ++ outputs.filterMap fun o => o.alias?.map Alias.expr
  | filter predicates | having predicates | qualify predicates => predicates.toList
  | limit _ _ => []

def kind : Operator → String
  | project .. => "project" | aggregate .. => "aggregate" | filter _ => "filter"
  | having _ => "having" | qualify _ => "qualify" | limit .. => "limit"

end Operator

structure Join where
  kind : JoinKind
  condition : Option Expr

instance : BEq Join := ⟨fun a b => a.kind == b.kind && a.condition == b.condition⟩

namespace Join

def output (join : Join) (left right : List Slot) : List Slot :=
  (if join.kind.outputsLeft then left else []) ++ (if join.kind.outputsRight then right else [])

end Join

inductive Plan
  | get (relation : Relation)
  | unary (operator : Operator) (input : Plan)
  | join (how : Join) (left right : Plan)

namespace Plan

@[match_pattern] abbrev project (input : Plan) (projections : List NamedExpr) (distinct : Bool) :
    Plan := unary (.project projections distinct) input

@[match_pattern] abbrev aggregate (input : Plan) (groupKey : List Expr)
    (outputs : List NamedExpr) : Plan := unary (.aggregate groupKey outputs) input

@[match_pattern] abbrev filter (input : Plan) (predicates : Conjuncts) : Plan :=
  unary (.filter predicates) input

@[match_pattern] abbrev having (input : Plan) (predicates : Conjuncts) : Plan :=
  unary (.having predicates) input

@[match_pattern] abbrev qualify (input : Plan) (predicates : Conjuncts) : Plan :=
  unary (.qualify predicates) input

@[match_pattern] abbrev limit (input : Plan) (limit offset : UInt64) : Plan :=
  unary (.limit limit offset) input

def projectSlots (input : Plan) (slots : List Slot) (distinct : Bool) : Plan :=
  input.project (slots.map .column) distinct

protected def beq : Plan → Plan → Bool
  | get r, get s => r == s
  | unary o p, unary o' q => o == o' && p.beq q
  | join j p q, join k r s => j == k && p.beq r && q.beq s
  | _, _ => false

instance : BEq Plan := ⟨Plan.beq⟩

def output : Plan → List Slot
  | get r => r.output
  | unary o p => o.output p.output
  | join j p q => j.output p.output q.output

def outputSet (p : Plan) : SortedSet Slot := .ofList p.output

def children : Plan → List Plan
  | get _ => []
  | unary _ p => [p]
  | join _ p q => [p, q]

def postorder : Plan → List Plan
  | p@(get _) => [p]
  | p@(unary _ q) => q.postorder ++ [p]
  | p@(join _ q r) => q.postorder ++ r.postorder ++ [p]

/-- The expressions held by the root, apart from columns passed through. -/
def expressions : Plan → List Expr
  | get _ => []
  | unary o _ => o.expressions
  | join j _ _ => j.condition.toList

def kind : Plan → String
  | get _ => "get"
  | unary o _ => o.kind
  | join .. => "join"

/-- The slots produced by the root or read by its expressions. -/
def ownSlots (p : Plan) : List Slot :=
  p.output ++ p.expressions.flatMap fun e => e.inputSlots.toList

def maxSlotId? (p : Plan) : Option SlotId :=
  (p.postorder.flatMap fun node => node.ownSlots.map Slot.id).max?

/-- Hands out identifiers above all those of the plan. -/
def freshSupply (p : Plan) : Supply := ⟨(p.maxSlotId?.map (· + 1)).getD 0⟩

end Plan
end QueryPlan

import QueryPlan.Expr.Order
import QueryPlan.Expr.Printer

namespace QueryPlan

/-- `slot` is the column through which operators above refer to the value of `expr`. -/
structure Alias where
  slot : Slot
  expr : Expr

namespace Alias

protected def compare (a b : Alias) : Ordering :=
  (Ord.compare a.slot b.slot).then (Ord.compare a.expr b.expr)

instance : Ord Alias := ⟨Alias.compare⟩

instance : BEq Alias := ⟨fun a b => a.slot == b.slot && a.expr == b.expr⟩

def fresh (expr : Expr) (name : String) (supply : Supply) : Alias × Supply :=
  let (slot, supply) := supply.fresh name
  (⟨slot, expr⟩, supply)

/-- The fresh column is named by the text of the expression. -/
def freshUnnamed (expr : Expr) (supply : Supply) : Alias × Supply :=
  fresh expr expr.render supply

end Alias

inductive NamedExpr
  | column (slot : Slot)
  | aliased (binding : Alias)

namespace NamedExpr

protected def compare : NamedExpr → NamedExpr → Ordering
  | column s, column t => Ord.compare s t
  | column _, aliased _ => .lt
  | aliased _, column _ => .gt
  | aliased a, aliased b => Ord.compare a b

instance : Ord NamedExpr := ⟨NamedExpr.compare⟩

instance : BEq NamedExpr where
  beq
    | column s, column t => s == t
    | aliased a, aliased b => a == b
    | _, _ => false

def slot : NamedExpr → Slot
  | column s => s
  | aliased a => a.slot

def expr : NamedExpr → Expr
  | column s => .slot s
  | aliased a => a.expr

def alias? : NamedExpr → Option Alias
  | column _ => none
  | aliased a => some a

def inputSlots (e : NamedExpr) : SortedSet Slot := e.expr.inputSlots

def render : NamedExpr → String
  | column s => s.render
  | aliased a => a.expr.render ++ " AS " ++ a.slot.render

end NamedExpr
end QueryPlan

import QueryPlan.Plan.Basic
import QueryPlan.Proofs.Expr.Names
import QueryPlan.Proofs.Membership

namespace QueryPlan

instance : ReflBEq Slot where
  rfl := Slot.beq_iff.2 rfl

instance : ReflBEq Alias where
  rfl {a} := Bool.and_eq_true_iff.2 ⟨BEq.rfl (a := a.slot), BEq.rfl (a := a.expr)⟩

instance : ReflBEq NamedExpr where
  rfl {e} := by
    cases e with
    | column s => exact BEq.rfl (a := s)
    | aliased a => exact BEq.rfl (a := a)

instance : ReflBEq Relation where
  rfl {r} := Bool.and_eq_true_iff.2 ⟨BEq.rfl (a := r.name), BEq.rfl (a := r.output)⟩

instance : ReflBEq Operator where
  rfl {o} := by
    cases o with
    | project ps d => exact Bool.and_eq_true_iff.2 ⟨BEq.rfl (a := ps), BEq.rfl (a := d)⟩
    | aggregate ks os => exact Bool.and_eq_true_iff.2 ⟨BEq.rfl (a := ks), BEq.rfl (a := os)⟩
    | filter ps | having ps | qualify ps => exact BEq.rfl (a := ps)
    | limit n k => exact Bool.and_eq_true_iff.2 ⟨BEq.rfl (a := n), BEq.rfl (a := k)⟩

instance : ReflBEq Join where
  rfl {j} := Bool.and_eq_true_iff.2 ⟨BEq.rfl (a := j.kind), BEq.rfl (a := j.condition)⟩

namespace Plan

theorem beq_unary (o o' : Operator) (p p' : Plan) :
    (unary o p == unary o' p') = (o == o' && p == p') := rfl

theorem beq_join (j j' : Join) (l l' r r' : Plan) :
    (join j l r == join j' l' r') = (j == j' && l == l' && r == r') := rfl

instance : ReflBEq Plan where
  rfl {p} := by
    induction p with
    | get r => exact BEq.rfl (a := r)
    | unary o p ih => rw [beq_unary, ih, BEq.rfl, Bool.and_self]
    | join j l r ihl ihr => rw [beq_join, ihl, ihr, BEq.rfl, Bool.and_self, Bool.and_self]

end Plan
end QueryPlan

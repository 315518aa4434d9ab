import QueryPlan.Plan.Basic
import QueryPlan.Proofs.Expr.Parts

namespace QueryPlan

/-- What a node holds, its inputs left aside. -/
inductive Node
  | relation (relation : Relation)
  | operator (operator : Operator)
  | join (join : Join)

def Operator.columns : Operator → List NamedExpr
  | project columns _ | aggregate _ columns => columns
  | filter _ | having _ | qualify _ | limit .. => []

/-- What is read of each row of the input: expressions, and columns passed through. -/
def Operator.readings : Operator → List Expr
  | project projections _ => projections.map NamedExpr.expr
  | aggregate groupKey outputs => groupKey ++ outputs.map NamedExpr.expr
  | filter predicates | having predicates | qualify predicates => predicates.toList
  | limit _ _ => []

/-- The columns that occur in what the node holds, in whatever place. -/
def Node.slots : Node → List Slot
  | relation r => r.output
  | operator o => o.columns.map NamedExpr.slot ++ o.readings.flatMap Expr.slots
  | join j => j.condition.toList.flatMap Expr.slots

namespace Plan

def preorder : Plan → List Plan
  | p@(get _) => [p]
  | p@(unary _ q) => p :: q.preorder
  | p@(join _ q r) => p :: (q.preorder ++ r.preorder)

def root : Plan → Node
  | get r => .relation r
  | unary o _ => .operator o
  | join j _ _ => .join j

def nodes : Plan → List Node
  | get r => [.relation r]
  | unary o p => .operator o :: p.nodes
  | join j p q => .join j :: (p.nodes ++ q.nodes)

def beneath (p : Plan) : List Plan := p.children.flatMap postorder

theorem postorder_eq (p : Plan) : p.postorder = p.beneath ++ [p] := by
  cases p <;> simp [postorder, beneath, children]

theorem mem_postorder_self (p : Plan) : p ∈ p.postorder := by
  rw [postorder_eq]
  exact List.mem_append_right _ (List.mem_singleton_self p)

theorem mem_postorder_of_child {p q node : Plan} (child : q ∈ p.children)
    (sub : node ∈ q.postorder) : node ∈ p.postorder := by
  rw [postorder_eq]
  exact List.mem_append_left _ (List.mem_flatMap.2 ⟨q, child, sub⟩)

theorem induct {P : Plan → Prop} (step : ∀ p : Plan, (∀ c ∈ p.children, P c) → P p) (p : Plan) :
    P p := by
  induction p with
  | get r => exact step _ (by simp [children])
  | unary o p ih => exact step _ (by simpa [children] using ih)
  | join j l r ihl ihr => exact step _ (by simpa [children] using ⟨ihl, ihr⟩)

theorem mem_postorder_trans {p q node : Plan} (inner : node ∈ q.postorder)
    (outer : q ∈ p.postorder) : node ∈ p.postorder := by
  induction p using induct with
  | step p ih =>
    rw [postorder_eq] at outer
    rcases List.mem_append.1 outer with below | root
    · obtain ⟨c, child, outer⟩ := List.mem_flatMap.1 below
      exact mem_postorder_of_child child (ih c child outer)
    · exact List.mem_singleton.1 root ▸ inner

theorem preorder_eq (p : Plan) : p.preorder = p :: p.children.flatMap preorder := by
  cases p <;> simp [preorder, children]

theorem nodes_eq (p : Plan) : p.nodes = p.preorder.map root := by
  induction p with
  | get r => rfl
  | unary o p ih => simp [nodes, preorder, root, ih]
  | join j l r ihl ihr => simp [nodes, preorder, root, ihl, ihr]

theorem exists_of_mem_nodes {p : Plan} {n : Node} (mem : n ∈ p.nodes) :
    ∃ q ∈ p.postorder, q.root = n := by
  induction p with
  | get r => exact ⟨_, mem_postorder_self _, (List.mem_singleton.1 mem).symm⟩
  | unary o p ih =>
    rcases List.mem_cons.1 mem with rfl | mem
    · exact ⟨_, mem_postorder_self _, rfl⟩
    · obtain ⟨q, there, same⟩ := ih mem
      exact ⟨q, List.mem_append_left _ there, same⟩
  | join j l r ihl ihr =>
    rcases List.mem_cons.1 mem with rfl | mem
    · exact ⟨_, mem_postorder_self _, rfl⟩
    · rcases List.mem_append.1 mem with mem | mem
      · obtain ⟨q, there, same⟩ := ihl mem
        exact ⟨q, List.mem_append_left _ (List.mem_append_left _ there), same⟩
      · obtain ⟨q, there, same⟩ := ihr mem
        exact ⟨q, List.mem_append_left _ (List.mem_append_right _ there), same⟩

end Plan
end QueryPlan

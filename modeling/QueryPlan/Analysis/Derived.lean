import QueryPlan.Plan.Basic

/-!
Bottom-up analyses. An analysis computes a value for each node from the node and the values of its
inputs. `Derived.of` takes the nodes from a stack, which gives their postorder backwards, and visits
each of them once in postorder; beside each value it keeps the size of the subplan, from which the
positions of a node's inputs follow.
-/
namespace QueryPlan

abbrev Analysis (α : Type) := Plan → List α → α

def Plan.size (p : Plan) : Nat := p.postorder.length

/-- Takes plans from a stack until none is left. A plan that is taken leaves its inputs there, put
on from left to right, so that its last input and all below that come next. -/
@[semireducible] def unstack : List Plan → List Plan
  | [] => []
  | plan :: todo => plan :: unstack (plan.children.reverse ++ todo)
termination_by todo => sum (todo.map Plan.size)
decreasing_by
  cases plan <;>
    simp only [Plan.children, Plan.size, Plan.postorder, List.reverse_nil, List.reverse_cons,
      List.nil_append, List.cons_append, List.map_cons, sum_cons, List.length_append,
      List.length_singleton] <;>
    omega

structure Derived (α : Type) where
  results : Array α
  sizes : Array Nat

/-- The positions of the `count` inputs of the node at `position`, last input first. In postorder
the last input directly precedes its operator, and every other input directly precedes the subplan
of the one to its right. -/
def inputsRev (sizes : Array Nat) : (position count : Nat) → List Nat
  | _, 0 => []
  | 0, _ + 1 => []
  | position + 1, count + 1 =>
    match sizes[position]? with
    | some size => position :: inputsRev sizes (position + 1 - size) count
    | none => []

namespace Derived

def childrenRev (d : Derived α) (position count : Nat) : List Nat :=
  inputsRev d.sizes position count

def extend (analysis : Analysis α) (d : Derived α) (node : Plan) : Derived α :=
  let inputs := d.childrenRev d.results.size node.children.length
  ⟨d.results.push (analysis node (inputs.reverse.filterMap (d.results[·]?))),
    d.sizes.push (1 + sum (inputs.filterMap (d.sizes[·]?)))⟩

def of (analysis : Analysis α) (plan : Plan) : Derived α :=
  (unstack [plan]).reverse.foldl (extend analysis) ⟨#[], #[]⟩

def root? (d : Derived α) : Option α := d.results.back?

end Derived
end QueryPlan

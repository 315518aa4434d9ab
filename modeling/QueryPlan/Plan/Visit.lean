import QueryPlan.Plan.Basic

/-!
Visiting the nodes of a plan from the top down, inputs from left to right. What is done at a node
may depend on all of the subplan there and change what the node holds itself, but not its inputs,
and it may fail; a failure ends the visit and leaves all that was done so far in place.
-/
namespace QueryPlan

structure Visited (α σ ε : Type) where
  value : α
  state : σ
  failure : Option ε

def Visited.map (f : α → β) (v : Visited α σ ε) : Visited β σ ε := ⟨f v.value, v.state, v.failure⟩

structure NodeAction (σ ε : Type) where
  run : Plan → σ → Visited Plan σ ε
  keeps : ∀ p state, (run p state).value.children = p.children

namespace Plan

def visitChildren (p : Plan) (f : (c : Plan) → c ∈ p.children → τ → Plan × τ) (state : τ) :
    Plan × τ :=
  match p, f with
  | get r, _ => (get r, state)
  | unary o c, f =>
    let (c, state) := f c (List.mem_singleton_self c) state
    (unary o c, state)
  | join j c d, f =>
    let (c, state) := f c (List.mem_cons_self ..) state
    let (d, state) := f d (List.mem_cons_of_mem _ (List.mem_singleton_self d)) state
    (join j c d, state)

theorem sizeOf_lt_of_mem_children {p c : Plan} (child : c ∈ p.children) : sizeOf c < sizeOf p := by
  cases p with
  | get r => cases child
  | unary o q =>
    rw [List.mem_singleton.1 child, unary.sizeOf_spec]
    omega
  | join j q r =>
    simp only [children, List.mem_cons, List.not_mem_nil, or_false] at child
    rw [join.sizeOf_spec]
    rcases child with rfl | rfl <;> omega

/-- Once a failure is on record, the inputs that are still gone through are left as they are. -/
def visitWith (action : NodeAction σ ε) (p : Plan) (state : σ) : Visited Plan σ ε :=
  match _called : action.run p state with
  | ⟨q, next, some e⟩ => ⟨q, next, some e⟩
  | ⟨q, next, none⟩ =>
    let (q, next, failure) := q.visitChildren (fun c _child (next, failure) =>
      match failure with
      | some e => (c, next, some e)
      | none =>
        let below := c.visitWith action next
        (below.value, below.state, below.failure)) (next, none)
    ⟨q, next, failure⟩
termination_by p
decreasing_by
  have same : p.children = q.children := by rw [← action.keeps p state, _called]
  exact sizeOf_lt_of_mem_children (same ▸ _child)

end Plan

/-- What is done at a node of each kind, its inputs left out of account. -/
structure Visitor (σ ε : Type) where
  relation : Relation → σ → Visited Relation σ ε
  operator : Operator → σ → Visited Operator σ ε
  join : Join → σ → Visited Join σ ε

def Visitor.action (visitor : Visitor σ ε) : NodeAction σ ε where
  run
    | .get r, state => (visitor.relation r state).map .get
    | .unary o p, state => (visitor.operator o state).map (.unary · p)
    | .join j p q, state => (visitor.join j state).map (.join · p q)
  keeps p _ := by cases p <;> rfl

def Plan.visit (visitor : Visitor σ ε) (p : Plan) (state : σ) : Visited Plan σ ε :=
  p.visitWith visitor.action state

end QueryPlan

import Mathlib.Data.List.Forall2
import QueryPlan.Analysis.Derived
import QueryPlan.Proofs.Plan.Parts

/-!
Deriving bottom up in one pass against deriving by recursion. What comes off the stack is a
postorder backwards, and the roots of the subplans under a node are found by stepping back over
their sizes.
Main statement: for every analysis the pass records, for the nodes in postorder, the values that
recursion gives to the subplans.
-/
namespace QueryPlan
namespace Plan

theorem size_eq (p : Plan) : p.size = p.beneath.length + 1 := by
  rw [size, postorder_eq, List.length_append, List.length_singleton]

theorem length_beneath (p : Plan) : p.beneath.length = sum (p.children.map size) := by
  rw [beneath, List.length_flatMap]
  rfl

@[simp] theorem size_unary (o : Operator) (p : Plan) : (unary o p).size = p.size + 1 := by
  simp [size, postorder]

/-- The value of the root by recursion on the plan. -/
def derive (analysis : Analysis α) : Plan → α
  | p@(get _) => analysis p []
  | p@(unary _ q) => analysis p [q.derive analysis]
  | p@(join _ q r) => analysis p [q.derive analysis, r.derive analysis]

theorem derive_eq (analysis : Analysis α) (p : Plan) :
    p.derive analysis = analysis p (p.children.map (derive analysis)) := by
  cases p <;> rfl

end Plan

theorem unstack_cons (p : Plan) (todo : List Plan) :
    unstack (p :: todo) = p.postorder.reverse ++ unstack todo := by
  induction p generalizing todo with
  | get r =>
    rw [unstack]
    rfl
  | unary o p ih =>
    rw [unstack]
    simp [Plan.children, Plan.postorder, ih]
  | join j l r ihl ihr =>
    rw [unstack]
    simp [Plan.children, Plan.postorder, ihl, ihr]

theorem reverse_unstack (p : Plan) : (unstack [p]).reverse = p.postorder := by
  rw [unstack_cons, unstack, List.append_nil, List.reverse_reverse]

def rootPositions (start : Nat) : List Plan → List Nat
  | [] => []
  | p :: ps => (start + p.beneath.length) :: rootPositions (start + p.size) ps

/-- The positions are those of subplans that end right before `position`, the last subplan first.
Each has its size recorded, and so many nodes do come before. -/
inductive StepsBack (sizes : Array Nat) : Nat → List Nat → Prop
  | done {position} : StepsBack sizes position []
  | step {position size earlier} (recorded : sizes[position]? = some size)
      (fits : size ≤ position + 1) (rest : StepsBack sizes (position + 1 - size) earlier) :
      StepsBack sizes (position + 1) (position :: earlier)

section
variable {sizes : Array Nat} {position start : Nat}

theorem StepsBack.inputsRev_eq {found : List Nat} (steps : StepsBack sizes position found) :
    inputsRev sizes position found.length = found := by
  induction steps with
  | done => rw [List.length_nil, inputsRev]
  | step recorded fits rest ih => simp only [List.length_cons, inputsRev, recorded, ih]

theorem StepsBack.lt {found : List Nat} (steps : StepsBack sizes position found) :
    ∀ i ∈ found, i < position := by
  induction steps with
  | done => simp
  | step recorded fits rest ih =>
    intro i mem
    rcases List.mem_cons.1 mem with rfl | mem
    · omega
    · have earlier := ih i mem
      omega

theorem stepsBack_rootPositions {ps : List Plan} {earlier : List Nat}
    (recorded : List.Forall₂ (fun p i => sizes[i]? = some p.size) ps (rootPositions start ps))
    (before : StepsBack sizes start earlier) :
    StepsBack sizes (start + sum (ps.map Plan.size))
      ((rootPositions start ps).reverse ++ earlier) := by
  induction ps generalizing start earlier with
  | nil => simpa [rootPositions] using before
  | cons p ps ih =>
    obtain ⟨root, others⟩ := List.forall₂_cons.1 recorded
    have size := p.size_eq
    have back : start + p.beneath.length + 1 - p.size = start := by omega
    have first : StepsBack sizes (start + p.size) ((start + p.beneath.length) :: earlier) := by
      rw [size, ← Nat.add_assoc]
      exact .step root (by omega) (by rwa [back])
    have whole := ih others first
    rw [List.map_cons, sum_cons, ← Nat.add_assoc, rootPositions, List.reverse_cons,
      List.append_assoc]
    exact whole

theorem length_rootPositions (start : Nat) (ps : List Plan) :
    (rootPositions start ps).length = ps.length := by
  induction ps generalizing start with
  | nil => rfl
  | cons p ps ih => rw [rootPositions, List.length_cons, List.length_cons, ih]

theorem inputsRev_rootPositions {ps : List Plan}
    (recorded : List.Forall₂ (fun p i => sizes[i]? = some p.size) ps (rootPositions start ps)) :
    inputsRev sizes (start + sum (ps.map Plan.size)) ps.length =
      (rootPositions start ps).reverse := by
  have steps := (stepsBack_rootPositions recorded .done).inputsRev_eq
  rwa [List.append_nil, List.length_reverse, length_rootPositions] at steps

end

theorem recorded_rootPositions (f : Plan → β) (before : Array β) (ps more : List Plan) :
    List.Forall₂ (fun p i =>
        (before ++ ((ps.flatMap Plan.postorder ++ more).map f).toArray)[i]? = some (f p)) ps
      (rootPositions before.size ps) := by
  induction ps generalizing before with
  | nil => exact .nil
  | cons p ps ih =>
    have split : before ++ (((p :: ps).flatMap Plan.postorder ++ more).map f).toArray =
        (before ++ (p.postorder.map f).toArray) ++
          ((ps.flatMap Plan.postorder ++ more).map f).toArray := by
      simp [Array.append_assoc]
    have size : (before ++ (p.postorder.map f).toArray).size = before.size + p.size := by
      simp [Plan.size]
    have others := ih (before ++ (p.postorder.map f).toArray)
    rw [size] at others
    rw [rootPositions, split]
    refine .cons ?_ others
    rw [Plan.postorder_eq]
    simp

theorem filterMap_of_forall₂ {as : List α} {is : List ι} {f : α → β} {g : ι → Option β}
    (each : List.Forall₂ (fun a i => g i = some (f a)) as is) : is.filterMap g = as.map f := by
  induction each with
  | nil => rfl
  | cons first rest ih => rw [List.filterMap_cons, first, List.map_cons, ih]

namespace Derived
variable (analysis : Analysis α)

def visited (d : Derived α) (nodes : List Plan) : Derived α :=
  ⟨d.results ++ (nodes.map (Plan.derive analysis)).toArray,
    d.sizes ++ (nodes.map Plan.size).toArray⟩

theorem visited_append (d : Derived α) (first second : List Plan) :
    (d.visited analysis first).visited analysis second = d.visited analysis (first ++ second) := by
  simp [visited, Array.append_assoc]

theorem visited_concat (d : Derived α) (nodes : List Plan) (p : Plan) :
    d.visited analysis (nodes ++ [p]) =
      ⟨(d.visited analysis nodes).results.push (p.derive analysis),
        (d.visited analysis nodes).sizes.push p.size⟩ := by
  simp [visited]

theorem extend_visited {d : Derived α} (aligned : d.results.size = d.sizes.size) (p : Plan) :
    extend analysis (d.visited analysis p.beneath) p = d.visited analysis p.postorder := by
  have values := recorded_rootPositions (Plan.derive analysis) d.results p.children []
  have sizes := recorded_rootPositions Plan.size d.sizes p.children []
  rw [List.append_nil, aligned] at values
  rw [List.append_nil] at sizes
  have root : (d.visited analysis p.beneath).results.size =
      d.sizes.size + sum (p.children.map Plan.size) := by
    simp [visited, aligned, p.length_beneath]
  have inputs : (d.visited analysis p.beneath).childrenRev
      (d.visited analysis p.beneath).results.size p.children.length =
        (rootPositions d.sizes.size p.children).reverse := by
    rw [childrenRev, root]
    exact inputsRev_rootPositions sizes
  have children : (rootPositions d.sizes.size p.children).filterMap
      ((d.visited analysis p.beneath).results[·]?) = p.children.map (Plan.derive analysis) :=
    filterMap_of_forall₂ values
  have below : (rootPositions d.sizes.size p.children).filterMap
      ((d.visited analysis p.beneath).sizes[·]?) = p.children.map Plan.size :=
    filterMap_of_forall₂ sizes
  have total : 1 + sum (p.children.map Plan.size).reverse = p.size := by
    rw [p.size_eq, p.length_beneath, Nat.add_comm]
    exact congrArg (· + 1) (List.sum_reverse _)
  rw [p.postorder_eq, visited_concat, extend]
  simp only [inputs, List.reverse_reverse, List.filterMap_reverse, children, below, total,
    p.derive_eq]

theorem foldl_postorder (p : Plan) {d : Derived α} (aligned : d.results.size = d.sizes.size) :
    p.postorder.foldl (extend analysis) d = d.visited analysis p.postorder := by
  induction p using Plan.induct generalizing d with
  | step p ih =>
    have forest (ps : List Plan) (sub : ps ⊆ p.children) {d : Derived α}
        (aligned : d.results.size = d.sizes.size) :
        (ps.flatMap Plan.postorder).foldl (extend analysis) d =
          d.visited analysis (ps.flatMap Plan.postorder) := by
      induction ps generalizing d with
      | nil => simp [visited]
      | cons c ps rest =>
        obtain ⟨child, sub⟩ := List.cons_subset.1 sub
        have aligned' : (d.visited analysis c.postorder).results.size =
            (d.visited analysis c.postorder).sizes.size := by
          simp [visited, aligned]
        rw [List.flatMap_cons, List.foldl_append, ih c child aligned, rest sub aligned',
          visited_append]
    have inputs := forest p.children (List.Subset.refl _) aligned
    have step := extend_visited analysis aligned p
    rw [p.postorder_eq, List.foldl_append, Plan.beneath, inputs]
    rw [p.postorder_eq, Plan.beneath] at step
    exact step

theorem of_eq (p : Plan) :
    of analysis p =
      ⟨(p.postorder.map (Plan.derive analysis)).toArray, (p.postorder.map Plan.size).toArray⟩ := by
  rw [of, reverse_unstack, foldl_postorder analysis p rfl]
  simp [visited]

theorem root?_of (p : Plan) : (of analysis p).root? = some (p.derive analysis) := by
  rw [root?, of_eq, p.postorder_eq]
  simp

end Derived
end QueryPlan

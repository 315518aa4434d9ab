import QueryPlan.Expr.Order

/-!
Replacing subexpressions from the top down. A step puts something in the place of a subexpression,
which is then not searched further, or leaves it, and the search goes on in its children from left
to right. A state is carried along in that order. Substitution is replacement that carries nothing.
-/
namespace QueryPlan

def sequence (runs : List (σ → β × σ)) (state : σ) : List β × σ :=
  match runs with
  | [] => ([], state)
  | run :: runs =>
    let (first, state) := run state
    let (rest, state) := sequence runs state
    (first :: rest, state)

namespace Expr

def replace (step : Expr → σ → Option (Expr × σ)) : Expr → σ → Expr × σ :=
  fold fun e parts state =>
    match step e state with
    | some replaced => replaced
    | none =>
      let (children, state) := sequence parts state
      (e.withChildren children, state)

theorem replace_eq (step : Expr → σ → Option (Expr × σ)) (e : Expr) (state : σ) :
    e.replace step state = (step e state).getD
      (let parts := sequence (e.children.map (replace step)) state
       (e.withChildren parts.1, parts.2)) := by
  rw [replace, fold_eq]
  cases step e state <;> rfl

def replaceAll (step : Expr → σ → Option (Expr × σ)) (es : List Expr) (state : σ) :
    List Expr × σ :=
  sequence (es.map (replace step)) state

end Expr

/-- Pairs of an expression and what takes its place; of equal expressions the first counts. -/
abbrev Substitution := List (Expr × Expr)

namespace Expr

def substitute (e : Expr) (map : Substitution) : Expr :=
  (e.replace (fun e state => (map.lookup e).map (·, state)) ()).1

theorem sequence_unit (runs : List (Unit → β × Unit)) :
    sequence runs () = (runs.map fun run => (run ()).1, ()) := by
  induction runs with
  | nil => rfl
  | cons run runs ih => simp [sequence, ih]

theorem substitute_eq (e : Expr) (map : Substitution) :
    e.substitute map =
      (map.lookup e).getD (e.withChildren (e.children.map (substitute · map))) := by
  rw [substitute, replace_eq, sequence_unit]
  cases map.lookup e <;> simp [substitute, Function.comp_def]

def weight (e : Expr) : Nat := e.fold fun e parts => sum parts + if e.isSlot then 0 else 1

theorem weight_eq (e : Expr) :
    e.weight = sum (e.children.map weight) + if e.isSlot then 0 else 1 := by
  rw [weight, fold_eq]; rfl

theorem isSlot_withChildren (e : Expr) (cs : List Expr) :
    (e.withChildren cs).isSlot = e.isSlot := by
  unfold withChildren
  split <;> rfl

theorem length_sequence (runs : List (σ → β × σ)) (state : σ) :
    (sequence runs state).1.length = runs.length := by
  induction runs generalizing state with
  | nil => rfl
  | cons run runs ih => simp [sequence, ih]

/-- If no step raises the weight and the cost of the state together, neither does replacing. -/
theorem weight_replace_le {step : Expr → σ → Option (Expr × σ)} (cost : σ → Nat)
    (bound : ∀ e s r, step e s = some r → r.1.weight + cost r.2 ≤ e.weight + cost s)
    (e : Expr) (s : σ) :
    (e.replace step s).1.weight + cost (e.replace step s).2 ≤ e.weight + cost s := by
  induction e using induct generalizing s with
  | step e ih =>
    rw [replace_eq]
    cases found : step e s with
    | some r => exact bound e s r found
    | none =>
      have parts : ∀ (es : List Expr), (∀ c ∈ es, c ∈ e.children) → ∀ s,
          sum ((sequence (es.map (replace step)) s).1.map weight) +
            cost (sequence (es.map (replace step)) s).2 ≤ sum (es.map weight) + cost s := by
        intro es
        induction es with
        | nil => intro _ s; simp [sequence]
        | cons c cs rest =>
          intro sub s
          have first := ih c (sub c (List.mem_cons_self ..)) s
          have others := rest (fun c h => sub c (List.mem_cons_of_mem _ h)) (c.replace step s).2
          simp only [List.map_cons, sequence, sum_cons]
          omega
      have whole := parts e.children (fun _ h => h) s
      have len : (sequence (e.children.map (replace step)) s).1.length = e.children.length := by
        simp [length_sequence]
      simp only [Option.getD_none]
      rw [weight_eq, children_withChildren len, isSlot_withChildren, weight_eq e]
      omega

theorem weight_replaceAll_le {step : Expr → σ → Option (Expr × σ)} (cost : σ → Nat)
    (bound : ∀ e s r, step e s = some r → r.1.weight + cost r.2 ≤ e.weight + cost s)
    (es : List Expr) (s : σ) :
    sum ((replaceAll step es s).1.map weight) + cost (replaceAll step es s).2 ≤
      sum (es.map weight) + cost s := by
  induction es generalizing s with
  | nil => simp [replaceAll, sequence]
  | cons e es ih =>
    have first := weight_replace_le cost bound e s
    have rest := ih (e.replace step s).2
    simp only [replaceAll, List.map_cons, sequence, sum_cons] at rest ⊢
    omega

end Expr
end QueryPlan

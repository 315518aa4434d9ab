import QueryPlan.Proofs.Qualify.Rebuilding

namespace QueryPlan
namespace Plan
open Qualify

/-- Over an aggregation predicates are settled, or its keys and outputs are admitted. -/
def Admits (admitted : List Expr → List NamedExpr → Prop) : Plan → Prop
  | .qualify p predicates => ∀ groupKey outputs,
    p.underHaving.shape? = some (.aggregation groupKey outputs) →
      AllSettled groupKey outputs predicates ∨ admitted groupKey outputs
  | _ => True

/-- The node waits for at most `n` sweeps. -/
structure Ready (cost : List Expr → List NamedExpr → Conjuncts → Nat)
    (admitted : List Expr → List NamedExpr → Prop) (n : Nat) (p : Plan) : Prop where
  admits : p.Admits admitted
  waits : p.wait cost ≤ n

section
variable {cost : List Expr → List NamedExpr → Conjuncts → Nat}
  {admitted : List Expr → List NamedExpr → Prop} {n : Nat}

theorem ready_unary {o : Operator} (other : o.isQualify = false) (p : Plan) :
    (unary o p).Ready cost admitted n := by
  constructor
  · cases o with
    | qualify predicates => cases other
    | _ => trivial
  · rw [wait_unary other]
    exact Nat.zero_le n

theorem everywhere_overAggregate {groupKey : List Expr} {outputs : List NamedExpr}
    {conditions : Option Conjuncts} {predicates : Conjuncts} {input : Plan} :
    (overAggregate groupKey outputs conditions predicates input).Everywhere
        (Ready cost admitted n) ↔
      input.Everywhere (Ready cost admitted n) ∧
        (overAggregate groupKey outputs conditions predicates input).Ready cost admitted n := by
  cases conditions with
  | none => simp only [overAggregate, everywhere_unary, ready_unary, Operator.isQualify, and_true]
  | some conditions =>
    simp only [overAggregate, everywhere_unary, ready_unary, Operator.isQualify, and_true]

theorem admits_overAggregate {groupKey : List Expr} {outputs : List NamedExpr}
    {conditions : Option Conjuncts} {predicates : Conjuncts} {input : Plan} :
    (overAggregate groupKey outputs conditions predicates input).Admits admitted ↔
      AllSettled groupKey outputs predicates ∨ admitted groupKey outputs := by
  have single : (∀ ks os, some (Shape.aggregation groupKey outputs) = some (.aggregation ks os) →
      AllSettled ks os predicates ∨ admitted ks os) ↔
        AllSettled groupKey outputs predicates ∨ admitted groupKey outputs := by
    constructor
    · exact fun all => all _ _ rfl
    · intro either ks os same
      cases same
      exact either
  cases conditions <;> exact single

section
variable {first : SlotId} {p q : Plan} {s t : Supply}

theorem Rebuilt.everywhere (rebuilt : Rebuilt s p q) (spends : Spends cost admitted first)
    (above : first ≤ s.next) (missing : ¬ p.Supplied)
    (each : p.Everywhere (Ready cost admitted n)) : q.Everywhere (Ready cost admitted n) := by
  have supplied_ready {input : Plan} {wider : List NamedExpr} {rewritten : Conjuncts}
      (supplied : ((Plan.project input wider false).qualify rewritten).Supplied) :
      ((Plan.project input wider false).qualify rewritten).Ready cost admitted n := by
    refine ⟨fun _ _ found => (by cases found), ?_⟩
    rw [wait_supplied supplied]
    simp only [underHaving, wait_unary, after, if_true, Nat.zero_le]
  have resolved {groupKey : List Expr} {outputs : List NamedExpr}
      {conditions : Option Conjuncts} {predicates : Conjuncts} {input : Plan}
      (unsettled : ¬ AllSettled groupKey outputs predicates)
      (each : (overAggregate groupKey outputs conditions predicates input).Everywhere
        (Ready cost admitted n)) :
      (overAggregate groupKey (resolve groupKey predicates ⟨outputs, s⟩).2.outputs conditions
        (resolve groupKey predicates ⟨outputs, s⟩).1 input).Everywhere
          (Ready cost admitted n) := by
    obtain ⟨inputs, ready⟩ := everywhere_overAggregate.1 each
    have admits := (admits_overAggregate.1 ready.admits).resolve_left unsettled
    have less := wait_resolve_lt conditions input spends above admits unsettled
    refine everywhere_overAggregate.2 ⟨inputs, admits_overAggregate.2 ?_, ?_⟩
    · exact (spends _ _ _ s above admits unsettled).imp_right And.left
    · exact Nat.le_trans (Nat.le_of_lt less) ready.waits
  cases rebuilt with
  | resolved => exact resolved (mt supplied_overAggregate.2 missing) each
  | extended columns =>
    exact everywhere_unary.2
      ⟨resolved (mt supplied_overAggregate.2 missing) each, ready_unary rfl _⟩
  | project columns supplied =>
    simp only [everywhere_unary] at each
    simp only [projectSlots, everywhere_unary, ready_unary, Operator.isQualify,
      supplied_ready supplied, each.1.1, and_true]
  | having columns supplied | distinctHaving kept columns supplied =>
    simp only [everywhere_unary] at each
    simp only [projectSlots, everywhere_unary, ready_unary, Operator.isQualify,
      supplied_ready supplied, each.1.1.1, and_true]

theorem Rebuilt.turned (rebuilt : Rebuilt s p q) (spends : Spends cost admitted first)
    (above : first ≤ s.next) (missing : ¬ p.Supplied) (admits : p.Admits admitted) :
    Turned cost p q := by
  have waits := wait_pos cost missing
  cases rebuilt with
  | @resolved groupKey outputs conditions predicates input =>
    have unsettled := mt supplied_overAggregate.2 missing
    have less := wait_resolve_lt conditions input spends above
      ((admits_overAggregate.1 admits).resolve_left unsettled) unsettled
    cases conditions with
    | none => exact .sooner (Nat.le_pred_of_lt less)
    | some conditions => exact .sooner (Nat.le_pred_of_lt less)
  | @extended groupKey outputs conditions predicates input columns =>
    cases conditions with
    | none => exact .projected waits
    | some conditions => exact .projected waits
  | project | having | distinctHaving => exact .projected waits

theorem Turned.admits {x x' : Plan} {predicates : Conjuncts} (turned : Turned cost x x')
    (admits : (x.qualify predicates).Admits admitted) :
    (x'.qualify predicates).Admits admitted := by
  intro groupKey outputs found
  rcases turned.underHaving.shape? with ⟨same, _⟩ | ⟨_, _, projections, other⟩
  · exact admits groupKey outputs (same ▸ found)
  · rw [other] at found
    cases found

theorem Turned.input {o : Operator} {x x' : Plan} (root : Turned cost p (.unary o x))
    (missing : ¬ p.Supplied) (below : Turned cost x x') : Turned cost p (.unary o x') := by
  cases root with
  | kept other =>
    cases o with
    | qualify predicates => cases other
    | _ => exact (missing trivial).elim
  | sooner less => exact .sooner (Nat.le_trans below.wait_qualify.1 less)
  | projected waits => exact .projected waits

theorem Swept.sooner {P : Plan → Plan → Prop} (visit : Swept P p s q t)
    (spends : Spends cost admitted first) (above : first ≤ s.next)
    (each : p.Everywhere (Ready cost admitted (n + 1))) :
    q.Everywhere (Ready cost admitted n) ∧ Turned cost p q := by
  induction visit with
  | get root =>
    rcases completeRoot_cases root with ⟨rfl, _⟩ | ⟨_, _, _, _, _, shape, _⟩
    · refine ⟨fun node mem => ?_, .get⟩
      rw [List.mem_singleton.1 mem]
      exact ⟨trivial, Nat.zero_le n⟩
    · cases shape
  | join root left right _ _ ihl ihr =>
    rcases completeRoot_cases root with ⟨rfl, supplied⟩ | ⟨_, _, _, _, _, shape, _⟩
    · rw [completeRoot_supplied supplied] at root
      cases root
      obtain ⟨eachLeft, eachRight, _⟩ := everywhere_join.1 each
      refine ⟨everywhere_join.2 ⟨(ihl above eachLeft).1, ?_, ⟨trivial, Nat.zero_le n⟩⟩, .join⟩
      exact (ihr (Nat.le_trans above left.next_le) eachRight).1
    · cases shape
  | @unary p o x x' s t u root input _ _ ih =>
    -- The node as it is when its input is visited, and how it has turned in the end.
    obtain ⟨ready, turn⟩ : (Plan.unary o x).Everywhere (Ready cost admitted (n + 1)) ∧
        (Turned cost x x' → Turned cost p (.unary o x')) := by
      cases completed : p.completeQualify? s with
      | none =>
        rw [completeRoot_eq_self completed] at root
        cases root
        refine ⟨each, fun below => ?_⟩
        have supplied := completeQualify?_eq_none_iff.1 completed
        cases o with
        | qualify predicates => exact .sooner (below.wait_qualify.2 supplied)
        | _ => exact .kept rfl below
      | some next =>
        obtain ⟨q, next⟩ := next
        rw [completeRoot_eq completed] at root
        cases root
        have missing := not_supplied_of_completed completed
        have rebuilt := rebuilt_of_completeQualify? completed
        refine ⟨rebuilt.everywhere spends above missing each, fun below => ?_⟩
        exact (rebuilt.turned spends above missing each.root.admits).input missing below
    obtain ⟨eachInput, node⟩ := everywhere_unary.1 ready
    obtain ⟨inputs, below⟩ := ih (Nat.le_trans above (next_le_completeRoot root)) eachInput
    have turned := turn below
    have waits := Nat.le_trans turned.wait_le (Nat.pred_le_pred each.root.waits)
    refine ⟨everywhere_unary.2 ⟨inputs, ?_, waits⟩, turned⟩
    cases o with
    | qualify predicates => exact below.admits node.admits
    | _ => trivial

end
end

end Plan
end QueryPlan

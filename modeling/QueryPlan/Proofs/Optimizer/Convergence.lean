import Mathlib.Data.List.MinMax
import QueryPlan.Proofs.Optimizer.Completion
import QueryPlan.Proofs.Qualify.Rounds
import QueryPlan.Proofs.Qualify.Settlement

namespace QueryPlan
namespace Pass

/-- Rounds that bring a bound down until a round changes nothing come to an end that does not depend
on how many more are allowed. -/
theorem iterate_converges {round : Plan → Supply → Outcome} {Q : Nat → Plan → Supply → Prop}
    (step : ∀ n plan supply, Q (n + 1) plan supply →
      ∃ p s, round plan supply = ⟨p, s, none⟩ ∧ Q n p s)
    (still : ∀ plan supply, Q 0 plan supply → ∃ s, round plan supply = ⟨plan, s, none⟩)
    {n : Nat} {plan : Plan} {supply : Supply} (start : Q n plan supply) :
    ∃ p s, ∀ exhausted limit, n < limit →
      iterate round exhausted limit plan supply = ⟨p, s, none⟩ := by
  induction n generalizing plan supply with
  | zero =>
    obtain ⟨s, ran⟩ := still plan supply start
    refine ⟨plan, s, fun exhausted limit enough => ?_⟩
    obtain ⟨more, rfl⟩ := Nat.exists_eq_add_of_le' enough
    exact iterate_still more ran
  | succ n ih =>
    obtain ⟨next, t, ran, bounded⟩ := step n plan supply start
    obtain ⟨p, s, rest⟩ := ih bounded
    by_cases equal : (next == plan) = true
    · refine ⟨next, t, fun exhausted limit enough => ?_⟩
      obtain ⟨more, rfl⟩ := Nat.exists_eq_add_of_le' (Nat.lt_of_le_of_lt (Nat.zero_le _) enough)
      rw [iterate, ran]
      exact if_pos equal
    · refine ⟨p, s, fun exhausted limit enough => ?_⟩
      obtain ⟨more, rfl⟩ := Nat.exists_eq_add_of_le' (Nat.lt_of_le_of_lt (Nat.zero_le _) enough)
      rw [iterate, ran]
      exact (if_neg equal).trans (rest exhausted more (Nat.lt_of_succ_lt_succ enough))

end Pass

namespace Plan
open Qualify

section
variable {cost : List Expr → List NamedExpr → Conjuncts → Nat}
  {admitted : List Expr → List NamedExpr → Prop} {first : SlotId} {n : Nat} {plan : Plan}
  {supply : Supply}

theorem complete_of_ready (each : plan.Everywhere (Ready cost admitted 0)) : plan.Complete := by
  intro node mem
  by_contra missing
  exact Nat.not_le_of_lt (wait_pos cost missing) (each node mem).waits

theorem everywhere_sweepQualify (spends : Spends cost admitted first) (above : first ≤ supply.next)
    (each : plan.Everywhere (Ready cost admitted (n + 1))) :
    (plan.sweepQualify supply).1.Everywhere (Ready cost admitted n) :=
  ((plan.swept_sweepQualify supply).sooner spends above each).1

theorem fixpoint_converges (spends : Spends cost admitted first) (above : first ≤ supply.next)
    (each : plan.Everywhere (Ready cost admitted n)) (name : String) (enabled : Bool) :
    ∃ p s, ∀ limit, n < limit →
      (Pass.fixpoint name [.rule .fillUpQualify]).run ⟨limit, enabled⟩ plan supply =
        ⟨p, s, none⟩ := by
  have rounds : ∃ p s, ∀ exhausted limit, n < limit →
      Pass.iterate (Rule.fillUpQualify.run ⟨0, enabled⟩) exhausted limit plan supply =
        ⟨p, s, none⟩ := by
    cases enabled with
    | false =>
      refine Pass.iterate_converges (Q := fun _ _ _ => True) ?_ ?_ trivial
      · exact fun _ p s _ => ⟨p, s, rfl, trivial⟩
      · exact fun _ s _ => ⟨s, rfl⟩
    | true =>
      refine Pass.iterate_converges
        (Q := fun n p s => first ≤ s.next ∧ p.Everywhere (Ready cost admitted n)) ?_ ?_
        ⟨above, each⟩
      · rintro n p s ⟨above, each⟩
        refine ⟨_, _, rfl, Nat.le_trans above (p.swept_sweepQualify s).next_le, ?_⟩
        exact everywhere_sweepQualify spends above each
      · rintro p s ⟨_, each⟩
        exact Rule.run_fillUpQualify_complete (complete_of_ready each)
  obtain ⟨p, s, ended⟩ := rounds
  refine ⟨p, s, fun limit enough => ?_⟩
  rw [Pass.run, Pass.runAll_singleton, Pass.run]
  exact ended _ limit enough

end

theorem Swept.mono {P Q : Plan → Plan → Prop} (weaker : ∀ p q, P p q → Q p q) {p q : Plan}
    {s t : Supply} (visit : Swept P p s q t) : Swept Q p s q t := by
  induction visit with
  | get root replaced => exact .get root (weaker _ _ replaced)
  | unary root _ replaced result input =>
    exact .unary root input (weaker _ _ replaced) (weaker _ _ result)
  | join root _ _ replaced result left right =>
    exact .join root left right (weaker _ _ replaced) (weaker _ _ result)

theorem Swept.unique {P : Plan → Plan → Prop} {p q q' : Plan} {s t t' : Supply}
    (visit : Swept P p s q t) (visit' : Swept P p s q' t') : q = q' ∧ t = t' := by
  induction visit generalizing q' t' with
  | get root =>
    cases visit' with
    | get root' =>
      rw [root] at root'
      cases root'
      exact ⟨rfl, rfl⟩
    | unary root' | join root' =>
      rw [root] at root'
      cases root'
  | unary root _ _ _ input =>
    cases visit' with
    | unary root' input' =>
      rw [root] at root'
      cases root'
      obtain ⟨rfl, rfl⟩ := input input'
      exact ⟨rfl, rfl⟩
    | get root' | join root' =>
      rw [root] at root'
      cases root'
  | join root _ _ _ _ left right =>
    cases visit' with
    | join root' left' right' =>
      rw [root] at root'
      cases root'
      obtain ⟨rfl, rfl⟩ := left left'
      obtain ⟨rfl, rfl⟩ := right right'
      exact ⟨rfl, rfl⟩
    | get root' | unary root' =>
      rw [root] at root'
      cases root'

abbrev Visit : Plan → Supply → Plan → Supply → Prop := Swept fun _ _ => True

theorem visit_iff {p q : Plan} {s t : Supply} :
    p.Visit s q t ↔ p.sweepQualify s = (q, t) := by
  have swept := (p.swept_sweepQualify s).mono (Q := fun _ _ => True) fun _ _ _ => trivial
  constructor
  · intro visit
    obtain ⟨plan, supply⟩ := swept.unique visit
    exact Prod.ext plan supply
  · intro same
    rw [same] at swept
    exact swept

def longest (f : Plan → Nat) (p : Plan) : Nat := (p.postorder.map f).foldr max 0

theorem le_longest (f : Plan → Nat) (p : Plan) : p.Everywhere (f · ≤ p.longest f) := by
  intro node mem
  exact List.le_max_of_le' 0 (List.mem_map_of_mem mem) (Nat.le_refl _)

theorem ready_longest (p : Plan) :
    p.Everywhere (Ready measure (fun _ _ => True) (p.longest (wait measure))) := by
  intro node mem
  refine ⟨?_, le_longest (wait measure) p node mem⟩
  unfold Admits
  split
  · exact fun _ _ _ => Or.inr trivial
  · trivial

/-- How many qualifies stand directly on each other here, counting a having between two as nothing,
from the node down. -/
def stack : Plan → Nat
  | .qualify (.having p _) _ | .qualify p _ => p.stack + 1
  | _ => 0

theorem stack_qualify (p : Plan) (predicates : Conjuncts) :
    (p.qualify predicates).stack = p.underHaving.stack + 1 := by
  unfold underHaving
  split
  · rw [stack]
  · rename_i other
    rw [stack]
    exact fun q c same => other q c same

theorem wait_qualify_le_stack {p : Plan} {predicates : Conjuncts}
    (below : p.underHaving.wait (fun _ _ _ => 0) ≤ p.underHaving.stack) :
    (p.qualify predicates).wait (fun _ _ _ => 0) ≤ (p.qualify predicates).stack := by
  rw [stack_qualify]
  by_cases supplied : (p.qualify predicates).Supplied
  · rw [wait_supplied supplied, after]
    split <;> omega
  · obtain ⟨shape, _, same⟩ := wait_unsupplied (fun _ _ _ => 0) supplied
    rw [same]
    cases shape <;> exact Nat.succ_le_succ (Nat.zero_le _)

theorem wait_le_stack (p : Plan) : p.wait (fun _ _ _ => 0) ≤ p.stack := by
  induction p using stack.induct with
  | case1 _ _ _ ih => exact wait_qualify_le_stack ih
  | case2 predicates p other ih =>
    refine wait_qualify_le_stack ?_
    rcases underHaving_cases p with same | ⟨conditions, same⟩
    · exact same ▸ ih
    · exact (other _ _ same).elim
  | case3 p notHaving other =>
    rw [wait]
    · exact Nat.zero_le _
    · exact notHaving
    · exact other

/-- An aggregation of which no group key and no alias has a column as a part that it computes. -/
def AliasesApart : Plan → Prop
  | .aggregate _ groupKey outputs => ∀ a ∈ aliasesOf outputs,
      ∀ e ∈ (Operator.aggregate groupKey outputs).expressions, e.mentions a.slot.id = false
  | _ => True

instance : DecidablePred AliasesApart
  | .unary (.aggregate groupKey outputs) _ => inferInstanceAs (Decidable (∀ a ∈ aliasesOf outputs,
      ∀ e ∈ (Operator.aggregate groupKey outputs).expressions, e.mentions a.slot.id = false))
  | .unary (.project ..) _ | .unary (.filter _) _ | .unary (.having _) _
  | .unary (.qualify _) _ | .unary (.limit ..) _ | .get _ | .join .. => isTrue trivial

theorem lt_freshSupply {p node : Plan} (mem : node ∈ p.postorder) {s : Slot}
    (own : s ∈ node.ownSlots) : s.id < p.freshSupply.next := by
  have there : s.id ∈ p.postorder.flatMap fun node => node.ownSlots.map Slot.id :=
    List.mem_flatMap.2 ⟨node, mem, List.mem_map_of_mem own⟩
  rw [freshSupply]
  cases found : p.maxSlotId? with
  | none =>
    rw [maxSlotId?, List.max?_eq_none_iff] at found
    rw [found] at there
    cases there
  | some largest =>
    rw [maxSlotId?, List.max?_eq_some_iff] at found
    exact Nat.lt_succ_of_le (found.2 s.id there)

theorem lt_freshSupply_of_mentions {p node : Plan} (mem : node ∈ p.postorder) {e : Expr}
    (held : e ∈ node.expressions) {id : SlotId} (mentions : e.mentions id = true) :
    id < p.freshSupply.next := by
  obtain ⟨s, sub, rfl⟩ := Expr.mentions_iff.1 mentions
  have read : s.id ∈ e.inputSlots.toList.map Slot.id :=
    Expr.id_mem_inputSlots_iff.2 ⟨_, sub, s, List.mem_singleton_self s, rfl⟩
  obtain ⟨t, found, same⟩ := List.mem_map.1 read
  rw [← same]
  exact lt_freshSupply mem (List.mem_append_right _ (List.mem_flatMap.2 ⟨e, held, found⟩))

theorem independent_of_apart {p input : Plan} {groupKey : List Expr} {outputs : List NamedExpr}
    (mem : input.aggregate groupKey outputs ∈ p.postorder)
    (apart : (input.aggregate groupKey outputs).AliasesApart) :
    Independent groupKey outputs p.freshSupply.next := by
  intro e held id computed
  rw [aliasesOf, List.map_filterMap] at held
  rcases computed with later | ⟨a, known, rfl⟩
  · rw [Bool.eq_false_iff]
    intro mentions
    exact Nat.not_lt_of_le later (lt_freshSupply_of_mentions mem held mentions)
  · exact apart a known e held

theorem exists_aggregate {p q : Plan} {predicates : Conjuncts}
    (mem : q.qualify predicates ∈ p.postorder) {groupKey : List Expr} {outputs : List NamedExpr}
    (found : q.underHaving.shape? = some (.aggregation groupKey outputs)) :
    ∃ input : Plan, input.aggregate groupKey outputs ∈ p.postorder := by
  have input : q ∈ p.postorder :=
    mem_postorder_trans (List.mem_append_left _ (mem_postorder_self q)) mem
  have under : q.underHaving ∈ p.postorder := by
    rcases underHaving_cases q with same | ⟨conditions, same⟩
    · exact same ▸ input
    · refine mem_postorder_trans ?_ input
      rw [same]
      exact List.mem_append_left _ (mem_postorder_self _)
  rcases shape?_cases found with ⟨below, _, _, same, shape⟩ | ⟨_, _, _, _, shape⟩
  · cases shape
    exact ⟨below, same ▸ under⟩
  · cases shape

theorem spends_independent (first : SlotId) :
    Spends (fun _ _ _ => 0) (fun groupKey outputs => Independent groupKey outputs first) first :=
  fun _ _ _ _ above independent _ => Or.inl (settled_resolve (independent.mono above))

def longestStack (p : Plan) : Nat := p.longest stack

theorem ready_longestStack {p : Plan} (apart : p.Everywhere AliasesApart) :
    p.Everywhere (Ready (fun _ _ _ => 0)
      (fun groupKey outputs => Independent groupKey outputs p.freshSupply.next)
      p.longestStack) := by
  intro node mem
  refine ⟨?_, Nat.le_trans (wait_le_stack node) (le_longest stack p node mem)⟩
  unfold Admits
  split
  · intro groupKey outputs found
    obtain ⟨input, there⟩ := exists_aggregate mem found
    exact Or.inr (independent_of_apart there (apart _ there))
  · trivial

end Plan

end QueryPlan

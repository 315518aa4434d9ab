import QueryPlan.Proofs.Qualify.GroupScope
import QueryPlan.Proofs.Qualify.Settlement

/-!
Columns that subqueries read from a completed aggregation. Resolving looks at a predicate's parts,
and the correlated columns of a subquery are none of them. Main statement: a group-key column that
a completed qualify reads as a correlated one is output exactly when it was before or some predicate
has it as a part of its own.
-/
namespace QueryPlan

def Expr.correlatedSlots (e : Expr) : List Slot :=
  e.postorder.flatMap fun
    | .subquery _ _ _ correlated => correlated
    | _ => []

theorem Expr.mentions_withChildren_iff {e : Expr} {cs : List Expr} {id : SlotId}
    (other : e.isSlot = false) (len : cs.length = e.children.length) :
    (e.withChildren cs).mentions id = true ↔ ∃ c ∈ cs, c.mentions id = true := by
  have children := children_withChildren len
  constructor
  · intro holds
    obtain ⟨s, sub, same⟩ := mentions_iff.1 holds
    rcases mem_postorder_iff.1 sub with ⟨c, child, sub⟩ | root
    · exact ⟨c, children ▸ child, mentions_iff.2 ⟨s, sub, same⟩⟩
    · rw [← isSlot_withChildren e cs, ← root] at other
      cases other
  · rintro ⟨c, child, holds⟩
    rw [← children] at child
    exact mentions_of_part (mem_postorder_of_child child (mem_postorder_self c)) holds

namespace Qualify

section
variable {groupKey : List Expr} {predicates : Conjuncts} {r t : Resolution} {e x : Expr}

theorem Resolves.mentions_added (step : Resolves groupKey r e x t) :
    ∀ c ∈ t.outputs, c ∈ r.outputs ∨ x.mentions c.slot.id = true := by
  intro c mem
  cases step with
  | keep | refer => exact Or.inl mem
  | pass | add =>
    rcases List.mem_append.1 mem with old | new
    · exact Or.inl old
    · rw [List.mem_singleton.1 new]
      exact Or.inr (Expr.mentions_slot _)

theorem mentions_of_mem_outputs {c : NamedExpr}
    (mem : c ∈ (resolve groupKey predicates r).2.outputs) :
    c ∈ r.outputs ∨
      ∃ q ∈ (resolve groupKey predicates r).1.toList, q.mentions c.slot.id = true := by
  have run : Expr.Threaded
      (fun r _ x t => ∀ c ∈ t.outputs, c ∈ r.outputs ∨ x.mentions c.slot.id = true) r
      predicates.toList (Expr.replaceAll (resolveStep groupKey) predicates.toList r).1
      (Expr.replaceAll (resolveStep groupKey) predicates.toList r).2 := by
    apply Expr.replaceAll_induct
    · exact fun s e x t found => (resolves_of_resolveStep found).mentions_added
    · intro s e cs t idle run c mem
      have other := isSlot_of_resolveStep_none idle
      rcases run.flip.origin c mem with old | ⟨x, child, holds⟩
      · exact Or.inl old
      · exact Or.inr ((Expr.mentions_withChildren_iff other run.length).2 ⟨x, child, holds⟩)
  rcases run.flip.origin c mem with old | ⟨x, resolved, holds⟩
  · exact Or.inl old
  · -- Of equal predicates the set keeps one, and it has the same columns as parts.
    obtain ⟨q, kept, same⟩ := SortedSet.exists_mem_ofList resolved
    rw [Expr.mentions_eq_of_beq (Expr.beq_iff_compare.2 same)] at holds
    exact Or.inr ⟨q, kept, holds⟩

/-- Every group-key column that is a part of the expression is output. -/
def Supplies (groupKey : List Expr) (outputs : List NamedExpr) (x : Expr) : Prop :=
  ∀ s, x.mentions s.id = true → groupKey.contains (.slot s) = true → produces outputs s = true

theorem supplies_slot {s : Slot} {outputs : List NamedExpr}
    (settled : Settled groupKey outputs (.slot s)) : Supplies groupKey outputs (.slot s) := by
  intro k mentions key
  obtain ⟨u, sub, same⟩ := Expr.mentions_iff.1 mentions
  rcases Expr.mem_postorder_iff.1 sub with ⟨c, child, _⟩ | root
  · cases child
  · cases root
    have key' : groupKey.contains (.slot s) = true :=
      contains_of_beq (Expr.slot_beq_iff.2 ⟨s, rfl, same.symm⟩) key
    rcases settled with produced | free
    · rwa [produces_iff, same, ← produces_iff] at produced
    · rw [key'] at free
      cases free

theorem Resolves.supplies (step : Resolves groupKey r e x t) : Supplies groupKey t.outputs x := by
  cases step with
  | keep settled => exact supplies_slot settled
  | pass | add => exact supplies_slot (Or.inl (by simp [produces, NamedExpr.slot]))
  | refer other known =>
    exact supplies_slot (Or.inl (produces_iff.2 (id_mem_outputs
      (mem_aliasesOf.1 (aliasFor?_some known).1))))

theorem supplies_resolve {q : Expr} (mem : q ∈ (resolve groupKey predicates r).1.toList) :
    Supplies groupKey (resolve groupKey predicates r).2.outputs q := by
  have kept : r.outputs <+: (resolve groupKey predicates r).2.outputs ∧
      List.Forall₂ (fun _ => Supplies groupKey (resolve groupKey predicates r).2.outputs)
        predicates.toList (Expr.replaceAll (resolveStep groupKey) predicates.toList r).1 := by
    refine Expr.replaceAll_grows (R := fun s t : Resolution => s.outputs <+: t.outputs)
      (Q := fun t _ x => Supplies groupKey t.outputs x) ?_ ?_ ?_ ?_ ?_ predicates.toList r
    · exact fun s => List.prefix_rfl
    · exact fun s t u first second => first.trans second
    · intro s t e x grown supplied k mentions key
      exact produces_mono grown (supplied k mentions key)
    · intro s e x t found
      have step := resolves_of_resolveStep found
      exact ⟨step.grows, step.supplies⟩
    · intro s e cs t idle parts k mentions key
      have other := isSlot_of_resolveStep_none idle
      have len := parts.length_eq.symm
      obtain ⟨c, child, holds⟩ := (Expr.mentions_withChildren_iff other len).1 mentions
      obtain ⟨_, _, supplied⟩ := exists_left_of_forall₂ parts child
      exact supplied k holds key
  obtain ⟨_, results⟩ := kept
  obtain ⟨_, _, supplied⟩ := exists_left_of_forall₂ results (SortedSet.mem_of_mem_ofList mem)
  exact supplied

/-- Whatever else reads it, a group-key column is output once the predicates are resolved exactly
when it was before or is a part of a resolved predicate. -/
theorem produces_resolve_iff {s : Slot} (key : groupKey.contains (.slot s) = true) :
    produces (resolve groupKey predicates r).2.outputs s = true ↔
      produces r.outputs s = true ∨
        ∃ q ∈ (resolve groupKey predicates r).1.toList, q.mentions s.id = true := by
  constructor
  · intro produced
    obtain ⟨c, mem, same⟩ := List.any_eq_true.1 produced
    rcases mentions_of_mem_outputs mem with old | ⟨q, resolved, mentions⟩
    · exact Or.inl (List.any_eq_true.2 ⟨c, old, same⟩)
    · rw [Slot.beq_iff.1 same] at mentions
      exact Or.inr ⟨q, resolved, mentions⟩
  · rintro (old | ⟨q, resolved, mentions⟩)
    · exact produces_mono (outputs_prefix_resolve predicates r) old
    · exact supplies_resolve resolved s mentions key

end

section
variable (groupKey : List Expr) (outputs : List NamedExpr) (conditions : Option Conjuncts)
  (predicates : Conjuncts) (input : Plan) (supply : Supply)

theorem completeRoot_overAggregate {r : Resolution} {resolved : Conjuncts}
    (done : resolve groupKey predicates ⟨outputs, supply⟩ = (resolved, r)) :
    let inner := overAggregate groupKey r.outputs conditions resolved input
    let whole :=
      ((overAggregate groupKey outputs conditions predicates input).completeRoot supply).1
    whole = inner ∨ whole = inner.projectSlots (outputs.map NamedExpr.slot) false := by
  have completion := Plan.completeQualify?_overAggregate groupKey outputs conditions predicates
    input supply
  cases found : aggregateFrame? predicates conditions groupKey outputs supply with
  | none =>
    rw [found, Option.map_none] at completion
    rw [resolve_settled (aggregateFrame?_eq_none_iff.1 found)] at done
    cases done
    rw [Plan.completeRoot_eq_self completion]
    exact Or.inl rfl
  | some next =>
    obtain ⟨frame, t⟩ := next
    rw [found, Option.map_some] at completion
    rw [Plan.completeRoot_eq completion]
    obtain ⟨-, ⟨-, rfl⟩ | ⟨-, same, rfl⟩⟩ := aggregateFrame?_some (r := ⟨outputs, supply⟩) found
    · rw [done]
      exact Or.inr rfl
    · rw [done] at same ⊢
      rw [← same]
      exact Or.inl rfl

/-- Whether or not a having stands in between, a group-key column that a subquery in the completed
qualify reads is output by the aggregation beneath exactly when it was before or some predicate
reads it outside the correlated columns. -/
theorem correlated_key_output_iff :
    ∃ outputs' predicates',
      outputs <+: outputs' ∧
      (let inner := overAggregate groupKey outputs' conditions predicates' input
       let whole :=
        ((overAggregate groupKey outputs conditions predicates input).completeRoot supply).1
       whole = inner ∨ whole = inner.projectSlots (outputs.map NamedExpr.slot) false) ∧
      ∀ q ∈ predicates'.toList, ∀ s ∈ q.correlatedSlots, groupKey.contains (.slot s) = true →
        (produces outputs' s = true ↔
          produces outputs s = true ∨ ∃ p ∈ predicates'.toList, p.mentions s.id = true) := by
  have whole := completeRoot_overAggregate groupKey outputs conditions predicates input supply rfl
  refine ⟨_, _, outputs_prefix_resolve predicates ⟨outputs, supply⟩, whole, ?_⟩
  intro q _ s _ key
  exact produces_resolve_iff key

end

namespace Shop

def priced : Expr := .subquery .existence 7 [] [price]

def taxTotals : List NamedExpr := [.aliased ⟨total, taxSum⟩]

end Shop

open Shop in
/-- A subquery reads the key `price`, which is not output: the plan is taken to be complete, while
over a projection that lacks the column it is passed through. -/
theorem correlated_key_missed :
    (overAggregate [.slot price] taxTotals none (.ofList [priced]) orders).completeQualify? ⟨4⟩ =
        none ∧
      price ∈ priced.correlatedSlots ∧ [Expr.slot price].contains (.slot price) = true ∧
      produces taxTotals price = false ∧
      ((orders.project [.column tax] false).completeProject? (.ofList [priced]) ⟨4⟩).isSome =
        true := by
  refine ⟨?_, List.mem_singleton_self _, ?_⟩
  · exact (Plan.completeQualify?_overAggregate ..).trans rfl
  · decide

end Qualify
end QueryPlan

import QueryPlan.Proofs.Qualify.GroupScope

namespace QueryPlan
namespace Qualify

/-- There is something to do about the part: it is an aggregate call, a key or what an alias
computes; of the columns only a key that is not output. -/
def Resolvable (groupKey : List Expr) (outputs : List NamedExpr) : Expr → Prop
  | .slot s =>
    groupKey.contains (.slot s) = true ∧ s.id ∉ (outputs.map NamedExpr.slot).map Slot.id
  | .aggregate .. => True
  | e => groupKey.contains e = true ∨ ∃ a, .aliased a ∈ outputs ∧ (a.expr == e) = true

/-- No predicate has a part, however deep, about which there is something to do. -/
def Unresolvable (groupKey : List Expr) (outputs : List NamedExpr) (predicates : Conjuncts) :
    Prop :=
  ∀ p ∈ predicates.toList, ∀ part ∈ p.postorder, ¬ Resolvable groupKey outputs part

section
variable {groupKey : List Expr} {outputs : List NamedExpr} {predicates : Conjuncts}
  {r t : Resolution} {e x : Expr}

theorem aliasFor?_eq_none_iff :
    aliasFor? outputs e = none ↔ ¬ ∃ a, .aliased a ∈ outputs ∧ (a.expr == e) = true := by
  rw [aliasFor?, List.find?_eq_none, ← aliasesOf]
  simp only [mem_aliasesOf, not_exists, not_and]

theorem settled_iff_not_resolvable :
    Settled groupKey outputs e ↔ ¬ Resolvable groupKey outputs e := by
  have computed (call : e.isAggregate = false) :
      (aliasFor? outputs e = none ∧ e.isAggregate = false ∧ groupKey.contains e = false) ↔
        ¬ (groupKey.contains e = true ∨ ∃ a, .aliased a ∈ outputs ∧ (a.expr == e) = true) := by
    rw [not_or, Bool.not_eq_true, ← aliasFor?_eq_none_iff, and_comm]
    exact and_congr_left fun _ => and_iff_right call
  cases e with
  | slot s =>
    rw [Resolvable, not_and_or, Bool.not_eq_true, not_not, ← produces_iff]
    exact or_comm
  | aggregate => simp [Settled, Resolvable, Expr.isAggregate]
  | literal | unary | binary | variadic | window | subquery => exact computed rfl

theorem allSettled_iff :
    AllSettled groupKey outputs predicates ↔ Unresolvable groupKey outputs predicates :=
  forall₂_congr fun _ _ => forall₂_congr fun _ _ => settled_iff_not_resolvable

theorem Resolves.eq_or_lighter (step : Resolves groupKey r e x t) :
    x = e ∨ x.weight < e.weight := by
  have positive {e : Expr} (other : e.isSlot = false) : 0 < e.weight := by
    rw [Expr.weight_eq, other]
    exact Nat.succ_pos _
  cases step with
  | keep | pass => exact Or.inl rfl
  | refer other => exact Or.inr (positive other)
  | add other => exact Or.inr (positive other)

theorem resolved_beq_iff :
    ((resolve groupKey predicates r).1 == predicates) = true ↔
      (Expr.replaceAll (resolveStep groupKey) predicates.toList r).1 = predicates.toList := by
  constructor
  · intro equal
    have each : List.Forall₂ (fun e x => x = e ∨ x.weight < e.weight) predicates.toList
        (Expr.replaceAll (resolveStep groupKey) predicates.toList r).1 :=
      Expr.replaceAll_eq_or_lighter
        (fun s e x t found => (resolves_of_resolveStep found).eq_or_lighter) predicates.toList r
    refine (Expr.eq_or_sum_weight_lt each).resolve_right fun less => ?_
    have merged := SortedSet.sum_ofList_le Expr.weight
      (Expr.replaceAll (resolveStep groupKey) predicates.toList r).1
    have weights : (resolve groupKey predicates r).1.toList.map Expr.weight =
        predicates.toList.map Expr.weight :=
      map_eq_of_beq (fun _ _ => Expr.weight_eq_of_beq) equal
    rw [← weights] at less
    exact Nat.not_le_of_lt less merged
  · intro same
    simp only [resolve, same, SortedSet.ofList_toList]
    exact BEq.rfl

/-- Whether or not a having stands in between, and whatever identifiers are handed out. That the
resolved set equals the original one means that each predicate came out as it went in. -/
theorem aggregation_declined_iff (predicates : Conjuncts) (input : Plan) (groupKey : List Expr)
    (outputs : List NamedExpr) (supply : Supply) :
    ((input.aggregate groupKey outputs).completeAggregate? predicates supply = none ↔
        Unresolvable groupKey outputs predicates) ∧
      (∀ conditions, ((input.aggregate groupKey outputs).having conditions).completeHavingAggregate?
          predicates supply = none ↔ Unresolvable groupKey outputs predicates) ∧
      (((resolve groupKey predicates ⟨outputs, supply⟩).1 == predicates) = true ↔
        (Expr.replaceAll (resolveStep groupKey) predicates.toList ⟨outputs, supply⟩).1 =
          predicates.toList) := by
  have declines (conditions : Option Conjuncts) :
      aggregateFrame? predicates conditions groupKey outputs supply = none ↔
        Unresolvable groupKey outputs predicates :=
    (aggregateFrame?_eq_none_iff (r := ⟨outputs, supply⟩)).trans allSettled_iff
  refine ⟨?_, fun conditions => ?_, resolved_beq_iff⟩
  · exact Option.map_eq_none_iff.trans (declines none)
  · exact Option.map_eq_none_iff.trans (declines (some conditions))

end
end Qualify
end QueryPlan

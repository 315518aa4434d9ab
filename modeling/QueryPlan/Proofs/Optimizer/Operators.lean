import Mathlib.Data.List.Infix
import QueryPlan.Proofs.Optimizer.Accounting

/-!
Operators over whole runs. Main statement: whatever passes run, no operator of the plan is lost and
none stands twice; what qualifies read and what aggregations and projections compute may grow, and
the only operators that come in are projections that are not distinct.
-/
namespace QueryPlan

namespace Node

/-- What completing qualifies leaves as it is: relations, filters, havings, limits and joins, and of
aggregations the group key. -/
def fixed? : Node → Option Node
  | operator (.project ..) | operator (.qualify _) => none
  | operator (.aggregate groupKey _) => some (operator (.aggregate groupKey []))
  | node => some node

def outputs? : Node → Option (List NamedExpr)
  | operator (.aggregate _ outputs) => some outputs
  | _ => none

def projections? : Node → Option (List NamedExpr)
  | operator (.project projections _) => some projections
  | _ => none

def isQualify : Node → Bool
  | operator o => o.isQualify
  | _ => false

def isDistinct : Node → Bool
  | operator (.project _ distinct) => distinct
  | _ => false

end Node

theorem forall₂_trans {R : α → α → Prop} [IsTrans α R] {as bs cs : List α}
    (first : List.Forall₂ R as bs) (second : List.Forall₂ R bs cs) : List.Forall₂ R as cs := by
  induction first generalizing cs with
  | nil => exact second
  | cons head tail ih =>
    cases second with
    | cons head' tail' => exact .cons (IsTrans.trans _ _ _ head head') (ih tail')

theorem sublistForall₂_append {R : α → β → Prop} {as cs : List α} {bs ds : List β}
    (first : List.SublistForall₂ R as bs) (second : List.SublistForall₂ R cs ds) :
    List.SublistForall₂ R (as ++ cs) (bs ++ ds) := by
  obtain ⟨bs', related, sub⟩ := List.sublistForall₂_iff.1 first
  obtain ⟨ds', related', sub'⟩ := List.sublistForall₂_iff.1 second
  exact List.sublistForall₂_iff.2 ⟨bs' ++ ds', List.rel_append related related', sub.append sub'⟩

/-- What stands after is what stood before, from the top down and left before right, apart from
qualifies that are written anew and move, outputs and projections that grow at their end, and
projections put in between. -/
structure KeepsOperators (before after : List Node) : Prop where
  fixed : after.filterMap Node.fixed? = before.filterMap Node.fixed?
  qualifies : after.countP Node.isQualify = before.countP Node.isQualify
  outputs : List.Forall₂ (· <+: ·) (before.filterMap Node.outputs?) (after.filterMap Node.outputs?)
  projections : List.SublistForall₂ (· <+: ·) (before.filterMap Node.projections?)
    (after.filterMap Node.projections?)
  distinct : after.countP Node.isDistinct = before.countP Node.isDistinct

open Qualify

theorem KeepsOperators.refl (ns : List Node) : KeepsOperators ns ns where
  fixed := rfl
  qualifies := rfl
  outputs := List.forall₂_refl _
  projections := refl_of _ _
  distinct := rfl

theorem KeepsOperators.trans {ns ns' ns'' : List Node} (first : KeepsOperators ns ns')
    (second : KeepsOperators ns' ns'') : KeepsOperators ns ns'' where
  fixed := second.fixed.trans first.fixed
  qualifies := second.qualifies.trans first.qualifies
  outputs := forall₂_trans first.outputs second.outputs
  projections := IsTrans.trans _ _ _ first.projections second.projections
  distinct := second.distinct.trans first.distinct

theorem KeepsOperators.append {ns ns' ms ms' : List Node} (first : KeepsOperators ns ns')
    (second : KeepsOperators ms ms') : KeepsOperators (ns ++ ms) (ns' ++ ms') where
  fixed := by simp only [List.filterMap_append, first.fixed, second.fixed]
  qualifies := by simp only [List.countP_append, first.qualifies, second.qualifies]
  outputs := by
    simp only [List.filterMap_append]
    exact List.rel_append first.outputs second.outputs
  projections := by
    simp only [List.filterMap_append]
    exact sublistForall₂_append first.projections second.projections
  distinct := by simp only [List.countP_append, first.distinct, second.distinct]

theorem Qualify.Expanded.keepsOperators {s t : Supply} {before after : List Operator}
    (expanded : Expanded s t before after) :
    KeepsOperators (before.map .operator) (after.map .operator) := by
  have wider {columns added : List NamedExpr} : columns <+: columns ++ added :=
    List.prefix_append ..
  cases expanded with
  | @project _ _ distinct =>
    refine ⟨rfl, rfl, .nil, .cons_right (.cons wider .nil), ?_⟩
    cases distinct <;> rfl
  | having => exact ⟨rfl, rfl, .nil, .cons_right (.cons wider .nil), rfl⟩
  | distinctHaving => exact ⟨rfl, rfl, .nil, .cons_right (.cons_right (.cons wider .nil)), rfl⟩
  | @resolved _ conditions =>
    cases conditions <;> exact ⟨rfl, rfl, .cons wider .nil, .nil, rfl⟩
  | @extended _ conditions =>
    cases conditions <;> exact ⟨rfl, rfl, .cons wider .nil, .nil, rfl⟩

theorem keepsOperators_compositional : Compositional fun _ _ => KeepsOperators where
  refl _ := .refl
  trans := .trans
  append := .append
  expanded := Expanded.keepsOperators

namespace Optimizer

/-- One sweep, rounds of it, and the optimizer where it returns a plan, keep each operator once. -/
theorem qualifyCompletion_keeps_operators (config : Config) (plan : Plan) (supply : Supply) :
    KeepsOperators plan.nodes (Rule.fillUpQualify.run config plan supply).plan.nodes ∧
      (∀ name, KeepsOperators plan.nodes
        ((Pass.fixpoint name [.rule .fillUpQualify]).run config plan supply).plan.nodes) ∧
      ∀ p, qualifyCompletion.optimize config plan = .ok p →
        KeepsOperators plan.nodes p.nodes := by
  refine ⟨keepsOperators_compositional.fillUpQualify config plan supply,
    fun name => keepsOperators_compositional.fixpoint config name plan supply, fun p done => ?_⟩
  obtain ⟨_, kept⟩ := keepsOperators_compositional.optimize done
  exact kept

def Sample.deduplicated : Plan :=
  ((Sample.table.project [.column Sample.a] true).having Sample.agree).qualify Sample.agree

theorem qualifyCompletion_keeps_operators_deduplicated :
    ∃ p, qualifyCompletion.optimize {} Sample.deduplicated = .ok p ∧
      (p.nodes.filterMap Node.projections?).length = 3 ∧
      KeepsOperators Sample.deduplicated.nodes p.nodes := by
  have kept := (qualifyCompletion_keeps_operators {} Sample.deduplicated ⟨3⟩).2.2
  exact ⟨_, rfl, rfl, kept _ rfl⟩

end Optimizer
end QueryPlan

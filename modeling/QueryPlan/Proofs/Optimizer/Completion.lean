import QueryPlan.Optimizer.Optimizer
import QueryPlan.Proofs.Qualify.Completeness

/-!
Qualify completion as a pass and under an optimizer. Main statements: the columns of the plan are
kept by a sweep, by any number of rounds and by the optimizer; and a plan that the optimizer returns
is complete everywhere, so that optimizing it again returns it as it is.
-/
namespace QueryPlan
namespace Pass

theorem runAll_singleton (config : Config) (pass : Pass) :
    runAll config [pass] = pass.run config := by
  funext plan supply
  rw [runAll]
  rcases pass.run config plan supply with ⟨plan, supply, _ | e⟩ <;> rfl

section
variable {round : Plan → Supply → Outcome} {exhausted : PassError}

theorem iterate_keeps {P : Plan → Prop}
    (kept : ∀ plan supply, P plan → P (round plan supply).plan) (limit : Nat) {plan : Plan}
    (supply : Supply) (start : P plan) : P (iterate round exhausted limit plan supply).plan := by
  induction limit generalizing plan supply with
  | zero => exact start
  | succ limit ih =>
    have once := kept plan supply start
    rw [iterate]
    split
    · rename_i found
      rw [found] at once
      exact once
    · rename_i found
      rw [found] at once
      split
      · exact once
      · exact ih _ once

/-- Rounds that end without a failure end with one that leaves its plan equal. -/
theorem iterate_converged {limit : Nat} {plan p : Plan} {supply s : Supply}
    (done : iterate round exhausted limit plan supply = ⟨p, s, none⟩) :
    ∃ before t, round before t = ⟨p, s, none⟩ ∧ (p == before) = true := by
  induction limit generalizing plan supply with
  | zero => cases done
  | succ limit ih =>
    rw [iterate] at done
    split at done
    · cases done
    · rename_i next t found
      split at done
      · rename_i equal
        cases done
        exact ⟨plan, supply, found, equal⟩
      · exact ih done

theorem iterate_still {plan : Plan} {supply s : Supply} (limit : Nat)
    (still : round plan supply = ⟨plan, s, none⟩) :
    iterate round exhausted (limit + 1) plan supply = ⟨plan, s, none⟩ := by
  rw [iterate, still]
  exact if_pos BEq.rfl

end

end Pass

namespace Rule
variable {config : Config} {plan : Plan} {supply : Supply}

theorem run_fillUpQualify_enabled (enabled : config.enableFillUpQualify = true) :
    fillUpQualify.run config plan supply =
      ⟨(plan.sweepQualify supply).1, (plan.sweepQualify supply).2, none⟩ := if_pos enabled

theorem run_fillUpQualify_disabled (disabled : ¬ config.enableFillUpQualify = true) :
    fillUpQualify.run config plan supply = ⟨plan, supply, none⟩ := if_neg disabled

theorem output_fillUpQualify (config : Config) (plan : Plan) (supply : Supply) :
    (fillUpQualify.run config plan supply).plan.output = plan.output := by
  by_cases enabled : config.enableFillUpQualify = true
  · rw [run_fillUpQualify_enabled enabled]
    exact (plan.swept_sweepQualify supply).sameOutput
  · rw [run_fillUpQualify_disabled enabled]

theorem run_fillUpQualify_complete (complete : plan.Complete) :
    ∃ s, fillUpQualify.run config plan supply = ⟨plan, s, none⟩ := by
  by_cases enabled : config.enableFillUpQualify = true
  · rw [run_fillUpQualify_enabled enabled,
      (plan.swept_sweepQualify supply).eq_of_complete complete]
    exact ⟨_, rfl⟩
  · rw [run_fillUpQualify_disabled enabled]
    exact ⟨_, rfl⟩

end Rule

namespace Pass

theorem output_fixpoint_fillUpQualify (config : Config) (name : String) (plan : Plan)
    (supply : Supply) :
    ((fixpoint name [.rule .fillUpQualify]).run config plan supply).plan.output = plan.output := by
  rw [run, runAll_singleton, run]
  apply iterate_keeps (P := fun p => p.output = plan.output) _ _ _ rfl
  intro p s same
  rw [Rule.output_fillUpQualify, same]

end Pass

namespace Optimizer
variable {config : Config} {plan p : Plan}

theorem optimize_ok_iff :
    qualifyCompletion.optimize config plan = .ok p ↔
      ∃ s, (Pass.fixpoint "fill_up_qualify" [.rule .fillUpQualify]).run config plan
        plan.freshSupply = ⟨p, s, none⟩ := by
  rw [optimize, qualifyCompletion, Pass.runAll_singleton]
  rcases (Pass.fixpoint "fill_up_qualify" [.rule .fillUpQualify]).run config plan
    plan.freshSupply with ⟨q, s, _ | e⟩ <;> simp

/-- The columns stay the same, with their names and in their order: under one sweep, under rounds of
it, under the optimizer, at every node that a sweep visits, and under each of the four rules. -/
theorem qualifyCompletion_keeps_output (config : Config) (plan : Plan) (supply : Supply) :
    (Rule.fillUpQualify.run config plan supply).plan.output = plan.output ∧
      (∀ name, ((Pass.fixpoint name [.rule .fillUpQualify]).run config plan
        supply).plan.output = plan.output) ∧
      (∀ p, qualifyCompletion.optimize config plan = .ok p → p.output = plan.output) ∧
      plan.Swept Plan.SameOutput supply (plan.sweepQualify supply).1
        (plan.sweepQualify supply).2 ∧
      ∀ predicates fragment next,
        (plan.completeProject? predicates supply = some (fragment, next) ∨
          plan.completeHavingProject? predicates supply = some (fragment, next) ∨
          plan.completeAggregate? predicates supply = some (fragment, next) ∨
          plan.completeHavingAggregate? predicates supply = some (fragment, next)) →
        fragment.output = plan.output := by
  refine ⟨Rule.output_fillUpQualify config plan supply,
    fun name => Pass.output_fixpoint_fillUpQualify config name plan supply, ?_,
    plan.swept_sweepQualify supply, ?_⟩
  · intro p done
    obtain ⟨s, ran⟩ := optimize_ok_iff.1 done
    have same := Pass.output_fixpoint_fillUpQualify config "fill_up_qualify" plan plan.freshSupply
    rw [ran] at same
    exact same
  · rintro predicates fragment next (found | found | found | found)
    · exact Plan.output_completeProject? found
    · exact Plan.output_completeHavingProject? found
    · exact Plan.output_completeAggregate? found
    · exact Plan.output_completeHavingAggregate? found

namespace Sample

def a : Slot := ⟨1, "a"⟩

def b : Slot := ⟨2, "b"⟩

def table : Plan := .get ⟨"t", [a, b]⟩

def agree : Conjuncts := .ofList [.equality a b]

end Sample

open Sample in
theorem qualifyCompletion_keeps_output_sample :
    (∃ p, qualifyCompletion.optimize {} ((table.project [.column a] true).qualify agree) = .ok p ∧
        p.output = [a]) ∧
      (∃ fragment next, (table.project [.column a, .column a] true).completeProject? agree ⟨3⟩ =
        some (fragment, next) ∧ fragment.output = [a, a]) ∧
      (∃ fragment next, ((table.project [.column a] true).having agree).completeHavingProject?
        agree ⟨3⟩ = some (fragment, next) ∧ fragment.output = [a]) ∧
      (∃ fragment next, (table.aggregate [.slot a, .slot b] [.column b]).completeAggregate?
        agree ⟨3⟩ = some (fragment, next) ∧ fragment.output = [b]) ∧
      ∃ fragment next, ((table.aggregate [.slot a] [.column b]).having
        agree).completeHavingAggregate? agree ⟨3⟩ = some (fragment, next) ∧
          fragment.output = [b] := by
  refine ⟨⟨_, rfl, ?_⟩, ⟨_, _, rfl, ?_⟩, ⟨_, _, rfl, ?_⟩, ⟨_, _, rfl, ?_⟩, ⟨_, _, rfl, ?_⟩⟩
  · exact (qualifyCompletion_keeps_output {} ((table.project [.column a] true).qualify agree)
      ⟨3⟩).2.2.1 _ rfl
  · exact (qualifyCompletion_keeps_output {} (table.project [.column a, .column a] true)
      ⟨3⟩).2.2.2.2 agree _ _ (Or.inl rfl)
  · exact (qualifyCompletion_keeps_output {} ((table.project [.column a] true).having agree)
      ⟨3⟩).2.2.2.2 agree _ _ (Or.inr (Or.inl rfl))
  · exact (qualifyCompletion_keeps_output {} (table.aggregate [.slot a, .slot b] [.column b])
      ⟨3⟩).2.2.2.2 agree _ _ (Or.inr (Or.inr (Or.inl rfl)))
  · exact (qualifyCompletion_keeps_output {} ((table.aggregate [.slot a] [.column b]).having agree)
      ⟨3⟩).2.2.2.2 agree _ _ (Or.inr (Or.inr (Or.inr rfl)))

theorem complete_of_optimize (enabled : config.enableFillUpQualify = true)
    (done : qualifyCompletion.optimize config plan = .ok p) : p.Complete := by
  obtain ⟨s, ran⟩ := optimize_ok_iff.1 done
  rw [Pass.run, Pass.runAll_singleton, Pass.run] at ran
  obtain ⟨before, t, last, equal⟩ := Pass.iterate_converged ran
  rw [Rule.run_fillUpQualify_enabled enabled] at last
  cases last
  obtain ⟨same, complete⟩ := (before.swept_sweepQualify t).complete_of_beq equal
  rwa [same]

theorem optimize_complete (complete : p.Complete) (limited : 1 ≤ config.fixpointLimit) :
    qualifyCompletion.optimize config p = .ok p := by
  obtain ⟨s, still⟩ := Rule.run_fillUpQualify_complete complete
  obtain ⟨limit, rounds⟩ := Nat.exists_eq_add_of_le' limited
  rw [optimize_ok_iff, Pass.run, Pass.runAll_singleton, Pass.run, rounds]
  exact ⟨s, Pass.iterate_still limit still⟩

/-- A plan that comes out has nothing left to complete at any node, with whatever identifiers, and
comes out again as it is. -/
theorem qualifyCompletion_completes (enabled : config.enableFillUpQualify = true)
    (done : qualifyCompletion.optimize config plan = .ok p) :
    (∀ node ∈ p.postorder, ∀ supply, node.completeQualify? supply = none) ∧
      (∀ input predicates, Plan.qualify input predicates ∈ p.postorder →
        (input.isProjection = true → ∀ e ∈ predicates.toList,
          e.containsWindow = false ∧ e.Within input.output) ∧
        (input.isAggregation = true → ∀ e ∈ predicates.toList, e.containsAggregate = false)) ∧
      ∀ again : Config, 1 ≤ again.fixpointLimit → qualifyCompletion.optimize again p = .ok p := by
  have complete := complete_of_optimize enabled done
  refine ⟨fun node mem supply => ?_, fun input predicates mem => ?_, fun again limited => ?_⟩
  · exact Plan.completeQualify?_eq_none_iff.2 (complete node mem)
  · have supplied := complete _ mem
    exact ⟨supplied.of_projection, supplied.of_aggregation⟩
  · exact optimize_complete complete limited

def Sample.numbered : Plan :=
  (Sample.table.project [.column Sample.a] false).qualify
    (.ofList [.window .rowNumber [] [.slot Sample.a] [.slot Sample.b],
      .equality Sample.a Sample.b])

theorem qualifyCompletion_completes_sample :
    ∃ p, qualifyCompletion.optimize {} Sample.numbered = .ok p ∧
      (∀ node ∈ p.postorder, ∀ supply, node.completeQualify? supply = none) ∧
      qualifyCompletion.optimize ⟨1, true⟩ p = .ok p := by
  have done := @qualifyCompletion_completes {} Sample.numbered _ rfl rfl
  exact ⟨_, rfl, done.1, done.2.2 ⟨1, true⟩ (Nat.le_refl 1)⟩

end Optimizer
end QueryPlan

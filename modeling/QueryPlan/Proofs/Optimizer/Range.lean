import QueryPlan.Proofs.Optimizer.Accounting

/-!
Qualify completion with identifiers of 64 bits. Main statements: for every plan a sweep ends and so
do the rounds, with one and the same plan however many more are allowed, and that plan is returned
exactly where the identifiers suffice; where no aggregation reads the columns it computes, one round
more than the longest stack of qualifies is enough.
-/
namespace QueryPlan

/-- Identifiers sufficed at the end exactly where they sufficed each time one was taken. -/
theorem Qualify.inRange_iff_taken {s t : Supply} (grows : s.next ≤ t.next) :
    t.InRange ↔ s.InRange ∧ ∀ id ∈ taken s t, id + 1 < UInt64.size := by
  constructor
  · intro inRange
    refine ⟨Nat.lt_of_le_of_lt grows inRange, fun id mem => ?_⟩
    have below := (List.mem_range'_1.1 mem).2
    rw [Nat.add_sub_of_le grows] at below
    exact Nat.lt_of_le_of_lt below inRange
  · rintro ⟨start, each⟩
    rcases Nat.eq_or_lt_of_le grows with same | less
    · rw [Supply.InRange, ← same]
      exact start
    · have last : t.next - 1 ∈ taken s t := List.mem_range'_1.2 ⟨by omega, by omega⟩
      have counted := each _ last
      rwa [Nat.sub_add_cancel (Nat.zero_lt_of_lt less)] at counted

namespace Outcome
variable {outcome : Outcome} {p : Plan} {s : Supply}

theorem checked_of_ended (ended : outcome = ⟨p, s, none⟩) :
    outcome.checked = if s.InRange then .ok p else .error .overflow := by
  rw [ended, checked]

theorem checked_of_not_inRange (out : ¬ outcome.supply.InRange) :
    outcome.checked = .error .overflow := if_neg out

end Outcome

theorem Rule.checked_fillUpQualify (config : Config) (plan : Plan) (supply : Supply) :
    ∃ q t, Accounts supply t plan.nodes q.nodes ∧
      fillUpQualify.run config plan supply = ⟨q, t, none⟩ ∧
      (fillUpQualify.run config plan supply).checked =
        if t.InRange then .ok q else .error .overflow := by
  have accounts := accounts_compositional.fillUpQualify config plan supply
  have succeeds : (fillUpQualify.run config plan supply).failure = none := by
    by_cases enabled : config.enableFillUpQualify = true
    · rw [run_fillUpQualify_enabled enabled]
    · rw [run_fillUpQualify_disabled enabled]
  rcases ran : fillUpQualify.run config plan supply with ⟨q, t, failure⟩
  rw [ran] at accounts succeeds
  cases succeeds
  exact ⟨q, t, accounts, rfl, Outcome.checked_of_ended rfl⟩

namespace Optimizer
variable {optimizer : Optimizer} {config : Config} {plan p : Plan} {s : Supply}

/-- A plan that is returned is the one that counting without end returns. -/
theorem optimizeChecked_ok_iff :
    optimizer.optimizeChecked config plan = .ok p ↔
      (optimizer.run config plan).supply.InRange ∧ optimizer.optimize config plan = .ok p := by
  rw [optimizeChecked, Outcome.checked, optimize, run]
  by_cases inRange : (Pass.runAll config optimizer.passes plan plan.freshSupply).supply.InRange
  · rw [if_pos inRange]
    cases (Pass.runAll config optimizer.passes plan plan.freshSupply).failure <;> simp [inRange]
  · simp [inRange]

theorem run_qualifyCompletion (config : Config) (plan : Plan) :
    qualifyCompletion.run config plan =
      (Pass.fixpoint "fill_up_qualify" [.rule .fillUpQualify]).run config plan
        plan.freshSupply := by
  rw [run, qualifyCompletion, Pass.runAll_singleton]

theorem accounts_run (config : Config) (plan : Plan) :
    Accounts plan.freshSupply (qualifyCompletion.run config plan).supply plan.nodes
      (qualifyCompletion.run config plan).plan.nodes := by
  rw [run_qualifyCompletion]
  exact accounts_compositional.fixpoint config _ plan plan.freshSupply

theorem optimizeChecked_overflow (config : Config) (out : ¬ plan.freshSupply.InRange) :
    qualifyCompletion.optimizeChecked config plan = .error .overflow := by
  refine Outcome.checked_of_not_inRange fun inRange => out ?_
  exact Nat.lt_of_le_of_lt (accounts_run config plan).next_le inRange

theorem optimizeChecked_of_converges {enabled : Bool} {least : Nat}
    (converges : ∃ p s, ∀ limit, least < limit →
      (Pass.fixpoint "fill_up_qualify" [.rule .fillUpQualify]).run ⟨limit, enabled⟩ plan
        plan.freshSupply = ⟨p, s, none⟩) :
    ∃ p s, Accounts plan.freshSupply s plan.nodes p.nodes ∧ ∀ limit, least < limit →
      qualifyCompletion.run ⟨limit, enabled⟩ plan = ⟨p, s, none⟩ ∧
        qualifyCompletion.optimizeChecked ⟨limit, enabled⟩ plan =
          if s.InRange then .ok p else .error .overflow := by
  obtain ⟨p, s, ended⟩ := converges
  have ran (limit : Nat) (enough : least < limit) :
      qualifyCompletion.run ⟨limit, enabled⟩ plan = ⟨p, s, none⟩ :=
    (run_qualifyCompletion _ plan).trans (ended limit enough)
  refine ⟨p, s, ?_, fun limit enough => ?_⟩
  · have accounts := accounts_run ⟨least + 1, enabled⟩ plan
    rwa [ran _ (Nat.lt_succ_self least)] at accounts
  · exact ⟨ran limit enough, Outcome.checked_of_ended (ran limit enough)⟩

/-- No visit goes on for ever, with whatever identifiers; the sweep is what the visit comes to; and
from some limit on the rounds end, with a plan and a supply that the limit has no part in. The plan
is returned, by a pass as by the optimizer, exactly where the supply left is in range. -/
theorem qualifyCompletion_terminates (plan : Plan) (supply : Supply) :
    WellFounded Plan.VisitedFrom ∧
      (∀ q t, plan.Visit supply q t ↔ plan.sweepQualify supply = (q, t)) ∧
      (∀ config, ∃ q t, Accounts supply t plan.nodes q.nodes ∧
        Rule.fillUpQualify.run config plan supply = ⟨q, t, none⟩ ∧
        (Rule.fillUpQualify.run config plan supply).checked =
          if t.InRange then .ok q else .error .overflow) ∧
      ∀ enabled,
        (∀ name, ∃ p s enough, ∀ limit, enough ≤ limit →
          (Pass.fixpoint name [.rule .fillUpQualify]).run ⟨limit, enabled⟩ plan supply =
            ⟨p, s, none⟩) ∧
        ∃ p s, Accounts plan.freshSupply s plan.nodes p.nodes ∧
          ∃ enough, ∀ limit, enough ≤ limit →
            qualifyCompletion.run ⟨limit, enabled⟩ plan = ⟨p, s, none⟩ ∧
              qualifyCompletion.optimizeChecked ⟨limit, enabled⟩ plan =
                if s.InRange then .ok p else .error .overflow := by
  have converges (supply : Supply) := Plan.fixpoint_converges Plan.spends_measure
    (Nat.zero_le supply.next) plan.ready_longest
  refine ⟨Plan.wellFounded_visitedFrom, fun q t => Plan.visit_iff,
    fun config => Rule.checked_fillUpQualify config plan supply, fun enabled => ⟨?_, ?_⟩⟩
  · intro name
    obtain ⟨p, s, ended⟩ := converges supply name enabled
    exact ⟨p, s, _, ended⟩
  · obtain ⟨p, s, accounts, ended⟩ :=
      optimizeChecked_of_converges (converges plan.freshSupply "fill_up_qualify" enabled)
    exact ⟨p, s, accounts, _, ended⟩

namespace Sample

def last : Plan := .get ⟨"t", [⟨UInt64.size - 1, "a"⟩]⟩

theorem not_inRange_last : ¬ last.freshSupply.InRange := by decide

end Sample

theorem qualifyCompletion_terminates_fails :
    ¬ ∃ p enough, ∀ limit, enough ≤ limit →
      qualifyCompletion.optimizeChecked ⟨limit, true⟩ Sample.last = .ok p := by
  rintro ⟨p, enough, returned⟩
  have overflow := optimizeChecked_overflow ⟨enough, true⟩ Sample.not_inRange_last
  rw [returned enough (Nat.le_refl enough)] at overflow
  cases overflow

/-- Where no aggregation has a column that it computes as a part of its keys or aliases, one round
more than the longest stack of qualifies is enough, and the plan is returned exactly where the
identifiers suffice; and where no qualify is stacked on another, the first sweep leaves nothing to
complete. -/
theorem qualifyCompletion_converges (apart : ∀ node ∈ plan.postorder, node.AliasesApart) :
    (∀ enabled, ∃ p s, Accounts plan.freshSupply s plan.nodes p.nodes ∧
        ∀ limit, plan.longestStack < limit →
          qualifyCompletion.run ⟨limit, enabled⟩ plan = ⟨p, s, none⟩ ∧
            qualifyCompletion.optimizeChecked ⟨limit, enabled⟩ plan =
              if s.InRange then .ok p else .error .overflow) ∧
      (plan.longestStack ≤ 1 → ∀ (config : Config) (supply : Supply),
        config.enableFillUpQualify = true → plan.freshSupply.next ≤ supply.next →
          ∃ q t, Rule.fillUpQualify.run config plan supply = ⟨q, t, none⟩ ∧
            (Rule.fillUpQualify.run config plan supply).checked =
              (if t.InRange then .ok q else .error .overflow) ∧
            ∀ node ∈ q.postorder, ∀ s, node.completeQualify? s = none) := by
  have ready := Plan.ready_longestStack apart
  have spends := Plan.spends_independent plan.freshSupply.next
  constructor
  · intro enabled
    exact optimizeChecked_of_converges
      (Plan.fixpoint_converges spends (Nat.le_refl _) ready "fill_up_qualify" enabled)
  · intro short config supply enabled above
    have once : plan.Everywhere (Plan.Ready (fun _ _ _ => 0)
        (fun groupKey outputs => Qualify.Independent groupKey outputs plan.freshSupply.next)
        (0 + 1)) :=
      fun node mem => ⟨(ready node mem).admits, Nat.le_trans (ready node mem).waits short⟩
    have swept := Plan.everywhere_sweepQualify spends above once
    obtain ⟨q, t, _, ran, returned⟩ := Rule.checked_fillUpQualify config plan supply
    refine ⟨q, t, ran, returned, fun node mem s => ?_⟩
    rw [Rule.run_fillUpQualify_enabled enabled] at ran
    cases ran
    exact Plan.completeQualify?_eq_none_iff.2 (Plan.complete_of_ready swept node mem)

namespace Sample

def total : Alias := ⟨⟨3, "total"⟩, .aggregate .sum (.slot b) false⟩

def totalled : Plan :=
  (table.aggregate [.slot a] [.aliased total]).qualify <| .ofList [
    .binary .gt total.expr (.slot a),
    .binary .lt (.aggregate .max (.slot b) false) (.slot total.slot)]

def stacked : Plan := totalled.qualify (.ofList [.window .rowNumber [] [] [.slot total.slot]])

end Sample

theorem qualifyCompletion_converges_stacked :
    (∃ p, qualifyCompletion.optimizeChecked ⟨3, true⟩ Sample.stacked = .ok p) ∧
      ∃ q t, Rule.fillUpQualify.run {} Sample.totalled ⟨4⟩ = ⟨q, t, none⟩ ∧
        ∀ node ∈ q.postorder, ∀ s, node.completeQualify? s = none := by
  constructor
  · have apart : ∀ node ∈ Sample.stacked.postorder, node.AliasesApart := by decide
    obtain ⟨p, s, _, ended⟩ := (qualifyCompletion_converges apart).1 true
    obtain ⟨ran, returned⟩ := ended 3 (by decide)
    have left : (qualifyCompletion.run ⟨3, true⟩ Sample.stacked).supply = s := by rw [ran]
    have inRange : s.InRange := by
      rw [← left]
      decide +kernel
    exact ⟨p, returned.trans (if_pos inRange)⟩
  · have apart : ∀ node ∈ Sample.totalled.postorder, node.AliasesApart := by decide
    obtain ⟨q, t, ran, _, complete⟩ :=
      (qualifyCompletion_converges apart).2 (by decide) {} ⟨4⟩ rfl (by decide)
    exact ⟨q, t, ran, complete⟩

theorem qualifyCompletion_converges_fails :
    ¬ ((∀ node ∈ Sample.last.postorder, node.AliasesApart) →
      ∀ config : Config, Sample.last.longestStack < config.fixpointLimit →
        ∃ p, qualifyCompletion.optimizeChecked config Sample.last = .ok p) := by
  intro converges
  obtain ⟨p, returned⟩ := converges (by decide) {} (by decide)
  rw [optimizeChecked_overflow {} Sample.not_inRange_last] at returned
  cases returned

end Optimizer
end QueryPlan

import QueryPlan.Proofs.Analysis.NameBlind
import QueryPlan.Proofs.Optimizer.Convergence
import QueryPlan.Proofs.Qualify.NameBlind

/-!
Names are for display only. Main statement: for plans that are equal, so differ in nothing but the
names of slots, completing the root, any passes made of qualify completion, the optimizers made of
them and the effective predicates give equal results, with the same identifiers handed out and the
same errors. A round is compared with the plan before it up to names too, so a fixpoint takes as
many rounds over both.
-/
namespace QueryPlan

namespace Plan
open Qualify

theorem completeRoot_similar {p p' q : Plan} {s t : Supply} (similar : Similar p q)
    (root : p.completeRoot s = (p', t)) : ∃ q', q.completeRoot s = (q', t) ∧ Similar p' q' := by
  obtain ⟨plans, supply⟩ := completeRoot_together similar s
  rw [root] at plans supply
  exact ⟨_, Prod.ext rfl supply.symm, similar_of_alike plans⟩

theorem visit_together {p p' q : Plan} {s t : Supply} (visit : p.Visit s p' t)
    (similar : Similar p q) : ∃ q', q.Visit s q' t ∧ Similar p' q' := by
  induction visit generalizing q with
  | get root =>
    obtain ⟨_, root', shape⟩ := completeRoot_similar similar root
    cases shape with
    | get relation => exact ⟨_, .get root' trivial, .get relation⟩
  | unary root _ _ _ ih =>
    obtain ⟨_, root', shape⟩ := completeRoot_similar similar root
    cases shape with
    | unary operator input =>
      obtain ⟨_, below, swept⟩ := ih input
      exact ⟨_, .unary root' below trivial trivial, .unary operator swept⟩
  | join root _ _ _ _ ihl ihr =>
    obtain ⟨_, root', shape⟩ := completeRoot_similar similar root
    cases shape with
    | join how left right =>
      obtain ⟨_, first, swept⟩ := ihl left
      obtain ⟨_, second, swept'⟩ := ihr right
      exact ⟨_, .join root' first second trivial trivial, .join how swept swept'⟩

theorem sweepQualify_together {p q : Plan} (similar : Similar p q) (supply : Supply) :
    SameResult (p.sweepQualify supply) (q.sweepQualify supply) := by
  obtain ⟨q', visit, swept⟩ := visit_together (visit_iff.2 rfl) similar
  rw [visit_iff.1 visit]
  exact ⟨swept.alike, rfl⟩

end Plan

structure Outcome.Same (x y : Outcome) : Prop where
  plans : Alike x.plan y.plan
  supply : x.supply = y.supply
  failure : x.failure = y.failure

theorem Outcome.Same.parts {x y : Outcome} (same : x.Same y) :
    ∃ p q supply failure, x = ⟨p, supply, failure⟩ ∧ y = ⟨q, supply, failure⟩ ∧ Alike p q := by
  obtain ⟨p, s, e⟩ := x
  obtain ⟨q, t, e'⟩ := y
  obtain ⟨plans, rfl, rfl⟩ := same
  exact ⟨p, q, _, _, rfl, rfl, plans⟩

def NameBlind (round : Plan → Supply → Outcome) : Prop :=
  ∀ p q supply, Alike p q → (round p supply).Same (round q supply)

theorem Rule.nameBlind_fillUpQualify (config : Config) : NameBlind (fillUpQualify.run config) := by
  intro p q supply equal
  by_cases enabled : config.enableFillUpQualify = true
  · obtain ⟨plans, next⟩ := Plan.sweepQualify_together (Plan.similar_of_alike equal) supply
    rw [run_fillUpQualify_enabled enabled, run_fillUpQualify_enabled enabled]
    exact ⟨plans, next, rfl⟩
  · rw [run_fillUpQualify_disabled enabled, run_fillUpQualify_disabled enabled]
    exact ⟨equal, rfl, rfl⟩

namespace Pass

theorem nameBlind_iterate {round : Plan → Supply → Outcome} (blind : NameBlind round)
    (exhausted : PassError) (limit : Nat) : NameBlind (iterate round exhausted limit) := by
  induction limit with
  | zero => exact fun p q supply equal => ⟨equal, rfl, rfl⟩
  | succ limit ih =>
    intro p q supply equal
    obtain ⟨p', q', s, failure, once, once', plans⟩ := (blind p q supply equal).parts
    rw [iterate, iterate, once, once']
    cases failure with
    | some e => exact ⟨plans, rfl, rfl⟩
    | none =>
      -- What ends the rounds is itself equality up to names, so it ends them for both at once.
      have still : (p' == p) = (q' == q) := by
        rw [BEq.congr_left plans, BEq.congr_right equal]
      simp only [still]
      split
      · exact ⟨plans, rfl, rfl⟩
      · exact ih p' q' s plans

theorem nameBlind_runAll {config : Config} {passes : List Pass}
    (each : ∀ pass ∈ passes, NameBlind (pass.run config)) : NameBlind (runAll config passes) := by
  induction passes with
  | nil => exact fun p q supply equal => ⟨equal, rfl, rfl⟩
  | cons pass passes ih =>
    obtain ⟨first, others⟩ := List.forall_mem_cons.1 each
    intro p q supply equal
    obtain ⟨p', q', s, failure, once, once', plans⟩ := (first p q supply equal).parts
    rw [runAll, runAll, once, once']
    cases failure with
    | some e => exact ⟨plans, rfl, rfl⟩
    | none => exact ih others p' q' s plans

/-- The passes made of qualify completion: the rule, and fixpoints over such passes. -/
inductive Completes : Pass → Prop
  | rule : Completes (.rule .fillUpQualify)
  | fixpoint {name passes} (each : ∀ pass ∈ passes, Completes pass) :
      Completes (.fixpoint name passes)

theorem Completes.nameBlind {pass : Pass} (completes : pass.Completes) (config : Config) :
    NameBlind (pass.run config) := by
  induction completes with
  | rule => exact Rule.nameBlind_fillUpQualify config
  | fixpoint _ ih => exact nameBlind_iterate (nameBlind_runAll ih) _ _

end Pass

/-- Both return equal plans, or both fail with the same error. -/
inductive SameReturn : Except PassError Plan → Except PassError Plan → Prop
  | ok {p q} (plans : Alike p q) : SameReturn (.ok p) (.ok q)
  | error {e} : SameReturn (.error e) (.error e)

theorem Optimizer.optimize_together {optimizer : Optimizer}
    (completes : ∀ pass ∈ optimizer.passes, pass.Completes) (config : Config) {p q : Plan}
    (equal : Alike p q) :
    SameReturn (optimizer.optimize config p) (optimizer.optimize config q) := by
  have blind : NameBlind (Pass.runAll config optimizer.passes) :=
    Pass.nameBlind_runAll fun pass mem => (completes pass mem).nameBlind config
  obtain ⟨p', q', s, failure, ran, ran', plans⟩ := (blind p q p.freshSupply equal).parts
  have supply := Plan.freshSupply_eq (Plan.similar_of_alike equal)
  rw [optimize, optimize, ← supply, ran, ran']
  cases failure with
  | some e => exact .error
  | none => exact .ok plans

open EffectivePredicates in
/-- Whatever the identifiers handed out, the limits and the labels of fixpoints; the sets of
predicates are equal node by node. -/
theorem Plan.names_never_matter {p q : Plan} (equal : (p == q) = true) :
    (∀ supply, Option.Rel SameResult (p.completeQualify? supply) (q.completeQualify? supply)) ∧
      (∀ pass : Pass, pass.Completes → ∀ config supply,
        (pass.run config p supply).Same (pass.run config q supply)) ∧
      (∀ optimizer : Optimizer, (∀ pass ∈ optimizer.passes, pass.Completes) → ∀ config,
        SameReturn (optimizer.optimize config p) (optimizer.optimize config q)) ∧
      ∀ infer, infer = Inference.nothing ∨ infer = Inference.equality →
        List.Forall₂ (fun facts facts' => (facts == facts') = true)
          (Derived.of (analysis infer) p).results.toList
          (Derived.of (analysis infer) q).results.toList := by
  have similar := similar_of_alike equal
  refine ⟨completeQualify?_together similar, ?_, ?_, ?_⟩
  · intro pass completes config supply
    exact completes.nameBlind config p q supply equal
  · intro optimizer completes config
    exact Optimizer.optimize_together completes config equal
  · rintro infer (rfl | rfl)
    · exact results_alike Inference.nameBlind_nothing similar
    · exact results_alike Inference.nameBlind_equality similar

namespace Optimizer.Sample

def earliest (first second : String) : Plan :=
  let key : Slot := ⟨1, first⟩
  let time : Slot := ⟨2, second⟩
  (((Plan.get ⟨"events", [key, time]⟩).filter (.ofList [.equality key time])).project
    [.column key] false).qualify
      (.ofList [.binary .eq (.window .rowNumber [] [] [.slot time]) (.literal (.integer 1))])

end Optimizer.Sample

open Optimizer.Sample EffectivePredicates in
/-- The number is computed into a column that is named by a text with the old name in it. -/
theorem Plan.names_never_matter_renamed :
    (earliest "key" "time" == earliest "id" "at") = true ∧
      (earliest "key" "time").output.map Slot.name ≠ (earliest "id" "at").output.map Slot.name ∧
      ((earliest "key" "time").completeQualify? ⟨3⟩).isSome = true ∧
      SameReturn (Optimizer.qualifyCompletion.optimize {} (earliest "key" "time"))
        (Optimizer.qualifyCompletion.optimize {} (earliest "id" "at")) ∧
      List.Forall₂ (fun facts facts' => (facts == facts') = true)
        (Derived.of (analysis .equality) (earliest "key" "time")).results.toList
        (Derived.of (analysis .equality) (earliest "id" "at")).results.toList := by
  have equal : (earliest "key" "time" == earliest "id" "at") = true := by decide
  obtain ⟨_, _, optimized, derived⟩ := Plan.names_never_matter equal
  refine ⟨equal, ?_, by decide, ?_, derived .equality (Or.inr rfl)⟩
  · decide
  · refine optimized _ (fun pass mem => ?_) {}
    rw [List.mem_singleton.1 mem]
    exact .fixpoint fun pass mem => List.mem_singleton.1 mem ▸ .rule

end QueryPlan

import QueryPlan.Proofs.Optimizer.Completion

/-!
What the limit on rounds can change. Main statement: a fixpoint ends with its first round that
leaves the plan equal, if the limit admits that round and nothing fails before; otherwise it fails
with the first failure inside it, or because of the limit. So a plan that comes out under one limit
comes out under every higher one.
-/
namespace QueryPlan
namespace Pass

inductive AllSucceed (config : Config) : List Pass → Plan → Supply → Plan → Supply → Prop
  | nil {plan supply} : AllSucceed config [] plan supply plan supply
  | cons {pass passes plan plan' p supply supply' s}
      (first : pass.run config plan supply = ⟨plan', supply', none⟩)
      (rest : AllSucceed config passes plan' supply' p s) :
      AllSucceed config (pass :: passes) plan supply p s

/-- The passes run in order up to the first that fails, which leaves the second plan and supply. -/
inductive FirstFails (config : Config) :
    List Pass → Plan → Supply → Plan → Supply → PassError → Prop
  | here {pass passes plan p supply s e} (failed : pass.run config plan supply = ⟨p, s, some e⟩) :
      FirstFails config (pass :: passes) plan supply p s e
  | later {pass passes plan plan' p supply supply' s e}
      (first : pass.run config plan supply = ⟨plan', supply', none⟩)
      (rest : FirstFails config passes plan' supply' p s e) :
      FirstFails config (pass :: passes) plan supply p s e

inductive Rounds (config : Config) (passes : List Pass) :
    Nat → Plan → Supply → Plan → Supply → Prop
  | zero {plan supply} : Rounds config passes 0 plan supply plan supply
  | succ {n plan plan' p supply supply' s}
      (once : AllSucceed config passes plan supply plan' supply')
      (rest : Rounds config passes n plan' supply' p s) :
      Rounds config passes (n + 1) plan supply p s

/-- Round `n`, counted from 0, leaves the plan equal to what it was before that round, and nothing
fails up to then. -/
def SettlesAt (config : Config) (passes : List Pass) (n : Nat) (plan : Plan) (supply : Supply)
    (p : Plan) (s : Supply) : Prop :=
  ∃ before t, Rounds config passes n plan supply before t ∧
    AllSucceed config passes before t p s ∧ (p == before) = true

def NeverSettles (config : Config) (passes : List Pass) (limit : Nat) (plan : Plan)
    (supply : Supply) : Prop :=
  ∀ n < limit, ∀ p s, ¬ SettlesAt config passes n plan supply p s

def FailsWithin (config : Config) (passes : List Pass) (limit : Nat) (plan : Plan)
    (supply : Supply) (p : Plan) (s : Supply) (e : PassError) : Prop :=
  ∃ n < limit, ∃ before t, Rounds config passes n plan supply before t ∧
    FirstFails config passes before t p s e

section
variable {config : Config} {passes : List Pass} {plan plan' p q : Plan}
  {supply supply' s t : Supply} {n limit : Nat} {e exhausted : PassError}

theorem runAll_success_iff :
    runAll config passes plan supply = ⟨p, s, none⟩ ↔ AllSucceed config passes plan supply p s := by
  induction passes generalizing plan supply with
  | nil =>
    rw [runAll]
    constructor
    · intro same
      cases same
      exact .nil
    · intro all
      cases all
      rfl
  | cons pass passes ih =>
    rw [runAll]
    constructor
    · intro ran
      split at ran
      · cases ran
      · rename_i found
        exact .cons found (ih.1 ran)
    · intro all
      cases all with
      | cons first rest =>
        rw [first]
        exact ih.2 rest

theorem runAll_failure_iff :
    runAll config passes plan supply = ⟨p, s, some e⟩ ↔
      FirstFails config passes plan supply p s e := by
  induction passes generalizing plan supply with
  | nil =>
    rw [runAll]
    constructor
    · intro same
      cases same
    · intro fails
      cases fails
  | cons pass passes ih =>
    rw [runAll]
    constructor
    · intro ran
      split at ran
      · rename_i found
        cases ran
        exact .here found
      · rename_i found
        exact .later found (ih.1 ran)
    · intro fails
      cases fails with
      | here failed => rw [failed]
      | later first rest =>
        rw [first]
        exact ih.2 rest

theorem AllSucceed.unique (all : AllSucceed config passes plan supply p s)
    (other : AllSucceed config passes plan supply q t) : p = q ∧ s = t := by
  have same := (runAll_success_iff.2 all).symm.trans (runAll_success_iff.2 other)
  cases same
  exact ⟨rfl, rfl⟩

theorem FirstFails.not_allSucceed (fails : FirstFails config passes plan supply p s e) :
    ¬ AllSucceed config passes plan supply q t := by
  intro all
  have same := (runAll_failure_iff.2 fails).symm.trans (runAll_success_iff.2 all)
  cases same

theorem settlesAt_zero_iff :
    SettlesAt config passes 0 plan supply p s ↔
      AllSucceed config passes plan supply p s ∧ (p == plan) = true := by
  constructor
  · rintro ⟨before, t, none, once, equal⟩
    cases none
    exact ⟨once, equal⟩
  · rintro ⟨once, equal⟩
    exact ⟨plan, supply, .zero, once, equal⟩

theorem rounds_succ_iff (once : AllSucceed config passes plan supply plan' supply') :
    Rounds config passes (n + 1) plan supply p s ↔ Rounds config passes n plan' supply' p s := by
  constructor
  · intro rounds
    cases rounds with
    | succ first rest =>
      obtain ⟨rfl, rfl⟩ := first.unique once
      exact rest
  · exact .succ once

theorem settlesAt_succ_iff (once : AllSucceed config passes plan supply plan' supply') :
    SettlesAt config passes (n + 1) plan supply p s ↔
      SettlesAt config passes n plan' supply' p s := by
  simp only [SettlesAt, rounds_succ_iff once]

theorem neverSettles_succ_iff (once : AllSucceed config passes plan supply plan' supply') :
    NeverSettles config passes (limit + 1) plan supply ↔
      ¬ (plan' == plan) = true ∧ NeverSettles config passes limit plan' supply' := by
  rw [NeverSettles, Nat.forall_lt_succ_left]
  simp only [settlesAt_succ_iff once]
  refine and_congr_left' ?_
  constructor
  · intro never equal
    exact never plan' supply' (settlesAt_zero_iff.2 ⟨once, equal⟩)
  · intro changed p s settles
    obtain ⟨again, equal⟩ := settlesAt_zero_iff.1 settles
    obtain ⟨rfl, rfl⟩ := once.unique again
    exact changed equal

theorem SettlesAt.exists_first (settles : SettlesAt config passes n plan supply p s) :
    ∃ m ≤ n, ∃ q t, SettlesAt config passes m plan supply q t ∧
      NeverSettles config passes m plan supply := by
  induction n using Nat.strongRecOn generalizing p s with
  | ind n ih =>
    by_cases never : NeverSettles config passes n plan supply
    · exact ⟨n, Nat.le_refl n, p, s, settles, never⟩
    · simp only [NeverSettles, not_forall, not_not] at never
      obtain ⟨m, before, q, t, early⟩ := never
      obtain ⟨k, least, rest⟩ := ih m before early
      exact ⟨k, by omega, rest⟩

theorem failsWithin_succ_iff (once : AllSucceed config passes plan supply plan' supply') :
    FailsWithin config passes (limit + 1) plan supply p s e ↔
      FailsWithin config passes limit plan' supply' p s e := by
  rw [FailsWithin, Nat.exists_lt_succ_left]
  simp only [rounds_succ_iff once]
  refine or_iff_right ?_
  rintro ⟨before, t, rounds, fails⟩
  cases rounds
  exact fails.not_allSucceed once

theorem FirstFails.not_settlesAt (fails : FirstFails config passes plan supply p s e) :
    ¬ SettlesAt config passes n plan supply q t := by
  rintro ⟨before, u, rounds, last, _⟩
  cases rounds with
  | zero => exact fails.not_allSucceed last
  | succ first _ => exact fails.not_allSucceed first

theorem FirstFails.rounds_eq (fails : FirstFails config passes plan supply p s e)
    (rounds : Rounds config passes n plan supply q t) : n = 0 ∧ q = plan ∧ t = supply := by
  cases rounds with
  | zero => exact ⟨rfl, rfl, rfl⟩
  | succ first _ => exact (fails.not_allSucceed first).elim

theorem iterate_success_iff :
    iterate (runAll config passes) exhausted limit plan supply = ⟨p, s, none⟩ ↔
      ∃ n < limit, SettlesAt config passes n plan supply p s ∧
        NeverSettles config passes n plan supply := by
  induction limit generalizing plan supply with
  | zero => simp [iterate]
  | succ limit ih =>
    rw [iterate]
    split
    · rename_i next t e found
      have fails := runAll_failure_iff.1 found
      constructor
      · intro same
        cases same
      · rintro ⟨n, _, settles, _⟩
        exact (fails.not_settlesAt settles).elim
    · rename_i next t found
      have once := runAll_success_iff.1 found
      rw [Nat.exists_lt_succ_left]
      simp only [settlesAt_succ_iff once, neverSettles_succ_iff once]
      split
      · rename_i equal
        constructor
        · intro same
          cases same
          exact Or.inl ⟨settlesAt_zero_iff.2 ⟨once, equal⟩, by intro m early; omega⟩
        · rintro (⟨settles, _⟩ | ⟨n, _, _, changed, _⟩)
          · obtain ⟨rfl, rfl⟩ := once.unique (settlesAt_zero_iff.1 settles).1
            rfl
          · exact (changed equal).elim
      · rename_i changed
        rw [ih]
        constructor
        · rintro ⟨n, bound, settles, never⟩
          exact Or.inr ⟨n, bound, settles, changed, never⟩
        · rintro (⟨settles, _⟩ | ⟨n, bound, settles, _, never⟩)
          · obtain ⟨again, equal⟩ := settlesAt_zero_iff.1 settles
            obtain ⟨rfl, rfl⟩ := once.unique again
            exact (changed equal).elim
          · exact ⟨n, bound, settles, never⟩

theorem iterate_succeeds_iff :
    (iterate (runAll config passes) exhausted limit plan supply).failure = none ↔
      ∃ n < limit, ∃ p s, SettlesAt config passes n plan supply p s := by
  constructor
  · intro succeeded
    obtain ⟨n, bound, settles, _⟩ := iterate_success_iff.1
      (show iterate (runAll config passes) exhausted limit plan supply = ⟨_, _, none⟩ by
        rw [← succeeded])
    exact ⟨n, bound, _, _, settles⟩
  · rintro ⟨n, bound, p, s, settles⟩
    obtain ⟨m, least, q, t, first, never⟩ := settles.exists_first
    rw [iterate_success_iff.2 ⟨m, by omega, first, never⟩]

theorem iterate_failure_iff :
    iterate (runAll config passes) exhausted limit plan supply = ⟨p, s, some e⟩ ↔
      NeverSettles config passes limit plan supply ∧
        (FailsWithin config passes limit plan supply p s e ∨
          Rounds config passes limit plan supply p s ∧ e = exhausted) := by
  induction limit generalizing plan supply with
  | zero =>
    rw [iterate]
    constructor
    · intro same
      cases same
      exact ⟨by intro n bound; omega, Or.inr ⟨.zero, rfl⟩⟩
    · rintro ⟨_, ⟨n, bound, _⟩ | ⟨rounds, rfl⟩⟩
      · omega
      · cases rounds
        rfl
  | succ limit ih =>
    rw [iterate]
    split
    · rename_i next t e' found
      have fails := runAll_failure_iff.1 found
      constructor
      · intro same
        cases same
        exact ⟨fun n _ q u settles => fails.not_settlesAt settles,
          Or.inl ⟨0, by omega, plan, supply, .zero, fails⟩⟩
      · rintro ⟨_, ⟨n, _, before, u, rounds, last⟩ | ⟨rounds, _⟩⟩
        · obtain ⟨rfl, rfl, rfl⟩ := fails.rounds_eq rounds
          rw [← runAll_failure_iff.2 last, found]
        · have none := (fails.rounds_eq rounds).1
          omega
    · rename_i next t found
      have once := runAll_success_iff.1 found
      rw [neverSettles_succ_iff once, failsWithin_succ_iff once, rounds_succ_iff once]
      split
      · rename_i equal
        constructor
        · intro same
          cases same
        · rintro ⟨⟨changed, _⟩, _⟩
          exact (changed equal).elim
      · rename_i changed
        rw [ih, and_assoc]
        exact (and_iff_right changed).symm

end

def SucceedsAs (round round' : Plan → Supply → Outcome) : Prop :=
  ∀ plan supply p s, round plan supply = ⟨p, s, none⟩ → round' plan supply = ⟨p, s, none⟩

theorem iterate_succeedsAs {round round' : Plan → Supply → Outcome}
    {exhausted exhausted' : PassError}
    (carries : SucceedsAs round round') {limit limit' : Nat} (higher : limit ≤ limit') :
    SucceedsAs (iterate round exhausted limit) (iterate round' exhausted' limit') := by
  induction limit generalizing limit' with
  | zero =>
    intro plan supply p s done
    cases done
  | succ limit ih =>
    intro plan supply p s done
    obtain ⟨more, rfl⟩ := Nat.exists_eq_add_of_le' higher
    rw [iterate] at done
    split at done
    · cases done
    · rename_i next t found
      rw [← Nat.add_assoc, iterate, carries plan supply next t found]
      split at done
      · rename_i equal
        cases done
        exact if_pos equal
      · rename_i changed
        simp only [if_neg changed]
        exact ih (by omega) next t p s done

theorem runAll_succeedsAs {config config' : Config} {passes : List Pass}
    (each : ∀ pass ∈ passes, SucceedsAs (pass.run config) (pass.run config')) :
    SucceedsAs (runAll config passes) (runAll config' passes) := by
  intro plan supply p s ran
  have all := runAll_success_iff.1 ran
  apply runAll_success_iff.2
  induction all with
  | nil => exact .nil
  | cons first rest ih =>
    obtain ⟨head, tail⟩ := List.forall_mem_cons.1 each
    exact .cons (head _ _ _ _ first) (ih tail (runAll_success_iff.2 rest))

end Pass

def Rule.IgnoresLimit (r : Rule) : Prop :=
  ∀ enable limit limit', r.run ⟨limit, enable⟩ = r.run ⟨limit', enable⟩

theorem Rule.ignoresLimit_fillUpQualify : fillUpQualify.IgnoresLimit := fun _ _ _ => rfl

namespace Pass

/-- The passes made of qualify completion, of rules that ignore the limit, and of fixpoints over
such passes. -/
inductive LimitedInFixpoints : Pass → Prop
  | completion : LimitedInFixpoints (.rule .fillUpQualify)
  | rule {r} (ignores : r.IgnoresLimit) : LimitedInFixpoints (.rule r)
  | fixpoint {name passes} (each : ∀ pass ∈ passes, LimitedInFixpoints pass) :
      LimitedInFixpoints (.fixpoint name passes)

theorem LimitedInFixpoints.succeedsAs {pass : Pass} (limited : pass.LimitedInFixpoints)
    {config config' : Config} (enable : config.enableFillUpQualify = config'.enableFillUpQualify)
    (higher : config.fixpointLimit ≤ config'.fixpointLimit) :
    SucceedsAs (pass.run config) (pass.run config') := by
  obtain ⟨limit, enabled⟩ := config
  obtain ⟨limit', _⟩ := config'
  cases enable
  have of_rule {r : Rule} (ignores : r.IgnoresLimit) :
      SucceedsAs (run ⟨limit, enabled⟩ (.rule r)) (run ⟨limit', enabled⟩ (.rule r)) := by
    intro plan supply p s ran
    rw [run] at ran ⊢
    rwa [ignores enabled limit' limit]
  induction limited with
  | completion => exact of_rule Rule.ignoresLimit_fillUpQualify
  | rule ignores => exact of_rule ignores
  | fixpoint _ ih =>
    intro plan supply p s ran
    rw [run] at ran ⊢
    exact iterate_succeedsAs (runAll_succeedsAs ih) higher plan supply p s ran

end Pass

theorem Optimizer.returns_iff {optimizer : Optimizer} {config : Config} {plan p : Plan} :
    optimizer.optimize config plan = .ok p ↔
      ∃ s, Pass.runAll config optimizer.passes plan plan.freshSupply = ⟨p, s, none⟩ := by
  rw [optimize]
  rcases Pass.runAll config optimizer.passes plan plan.freshSupply with ⟨q, s, _ | e⟩ <;> simp

/-- A higher limit changes nothing of a plan that comes out, names and identifiers included. -/
theorem Optimizer.higher_limits_agree :
    (∀ optimizer : Optimizer, (∀ pass ∈ optimizer.passes, pass.LimitedInFixpoints) →
      ∀ config config' : Config, config.enableFillUpQualify = config'.enableFillUpQualify →
        config.fixpointLimit ≤ config'.fixpointLimit →
          ∀ plan p, optimizer.optimize config plan = .ok p →
            optimizer.optimize config' plan = .ok p) ∧
      ∀ (config : Config) (name : String) (passes : List Pass) (plan : Plan) (supply : Supply),
        let limit := config.fixpointLimit
        let outcome := (Pass.fixpoint name passes).run config plan supply
        (outcome.failure = none ↔
          ∃ n < limit, ∃ p s, Pass.SettlesAt config passes n plan supply p s) ∧
        (∀ p s, outcome = ⟨p, s, none⟩ ↔
          ∃ n < limit, Pass.SettlesAt config passes n plan supply p s ∧
            Pass.NeverSettles config passes n plan supply) ∧
        (∀ p s e, outcome = ⟨p, s, some e⟩ ↔
          Pass.NeverSettles config passes limit plan supply ∧
            (Pass.FailsWithin config passes limit plan supply p s e ∨
              Pass.Rounds config passes limit plan supply p s ∧
                e = .fixpointLimit name limit)) ∧
        (limit = 0 → outcome = ⟨plan, supply, some (.fixpointLimit name 0)⟩) := by
  refine ⟨?_, ?_⟩
  · intro optimizer limited config config' enable higher plan p done
    have carries : Pass.SucceedsAs (Pass.runAll config optimizer.passes)
        (Pass.runAll config' optimizer.passes) :=
      Pass.runAll_succeedsAs fun pass mem => (limited pass mem).succeedsAs enable higher
    obtain ⟨s, ran⟩ := Optimizer.returns_iff.1 done
    exact Optimizer.returns_iff.2 ⟨s, carries plan plan.freshSupply p s ran⟩
  · intro config name passes plan supply limit outcome
    have unfolded : outcome = Pass.iterate (Pass.runAll config passes)
        (.fixpointLimit name limit) limit plan supply := by
      rw [← Pass.run]
    rw [unfolded]
    refine ⟨Pass.iterate_succeeds_iff, fun p s => Pass.iterate_success_iff,
      fun p s e => Pass.iterate_failure_iff, fun none => ?_⟩
    rw [none]
    rfl

namespace Optimizer.Sample

def unlimit : Rule where
  label := "Unlimit"
  run _ plan supply :=
    match plan with
    | .limit input _ _ => ⟨input, supply, none⟩
    | other => ⟨other, supply, none⟩

def nested : Optimizer :=
  ⟨[.fixpoint "outer" [.fixpoint "inner" [.rule .fillUpQualify], .rule unlimit]]⟩

end Optimizer.Sample

open Optimizer.Sample in
/-- Two rounds do not suffice for two limits on top of each other, three do. -/
theorem Optimizer.higher_limits_agree_nested :
    nested.optimize ⟨2, true⟩ ((numbered.limit 5 0).limit 3 1) = .error (.fixpointLimit "outer" 2) ∧
      ∃ p, nested.optimize ⟨3, true⟩ ((numbered.limit 5 0).limit 3 1) = .ok p ∧
        nested.optimize ⟨100, true⟩ ((numbered.limit 5 0).limit 3 1) = .ok p := by
  have limited : ∀ pass ∈ nested.passes, pass.LimitedInFixpoints := by
    simp only [nested, List.mem_singleton, forall_eq]
    refine .fixpoint (List.forall_mem_cons.2 ⟨?_, List.forall_mem_singleton.2 ?_⟩)
    · exact .fixpoint (List.forall_mem_singleton.2 .completion)
    · exact .rule fun _ _ _ => rfl
  exact ⟨rfl, _, rfl, higher_limits_agree.1 nested limited ⟨3, true⟩ ⟨100, true⟩ rfl (by decide)
    _ _ rfl⟩

end QueryPlan

import QueryPlan.Proofs.Expr.Threading
import QueryPlan.Proofs.Membership
import QueryPlan.Qualify.Aggregation

/-!
Predicates resolved over the outputs of an aggregation. Main statements: resolving only adds outputs
after those there are, and there is nothing to complete exactly where every part of every predicate
is settled: it is neither computed by an output, nor an aggregate call or a group key to be output.
-/
namespace QueryPlan
namespace Qualify

def aliasesOf (outputs : List NamedExpr) : List Alias := outputs.filterMap NamedExpr.alias?

theorem mem_aliasesOf {outputs : List NamedExpr} {a : Alias} :
    a ∈ aliasesOf outputs ↔ .aliased a ∈ outputs := by
  rw [aliasesOf, List.mem_filterMap]
  constructor
  · rintro ⟨c, mem, same⟩
    cases c with
    | column => cases same
    | aliased => exact Option.some.inj same ▸ mem
  · exact fun mem => ⟨_, mem, rfl⟩

theorem aliasFor?_some {outputs : List NamedExpr} {e : Expr} {a : Alias}
    (known : aliasFor? outputs e = some a) : a ∈ aliasesOf outputs ∧ (a.expr == e) = true :=
  ⟨List.mem_of_find?_eq_some known, by simpa using List.find?_some known⟩

/-- Resolving leaves the expression as it is. -/
def Settled (groupKey : List Expr) (outputs : List NamedExpr) : Expr → Prop
  | .slot s => produces outputs s = true ∨ groupKey.contains (.slot s) = false
  | e => aliasFor? outputs e = none ∧ e.isAggregate = false ∧ groupKey.contains e = false

def AllSettled (groupKey : List Expr) (outputs : List NamedExpr) (predicates : Conjuncts) : Prop :=
  ∀ p ∈ predicates.toList, ∀ part ∈ p.postorder, Settled groupKey outputs part

variable {groupKey : List Expr}

theorem resolveStep_slot (s : Slot) (r : Resolution) :
    resolveStep groupKey (.slot s) r =
      if produces r.outputs s || !groupKey.contains (.slot s) then some (.slot s, r)
      else some (.slot s, ⟨r.outputs ++ [.column s], r.supply⟩) := rfl

theorem resolveStep_of_not_slot {e : Expr} (other : e.isSlot = false) (r : Resolution) :
    resolveStep groupKey e r =
      match aliasFor? r.outputs e with
      | some a => some (.slot a.slot, r)
      | none =>
        if e.isAggregate || groupKey.contains e then
          some (.slot (Alias.freshUnnamed e r.supply).1.slot,
            ⟨r.outputs ++ [.aliased (Alias.freshUnnamed e r.supply).1],
              (Alias.freshUnnamed e r.supply).2⟩)
        else none := by
  cases e with
  | slot s => cases other
  | _ => rfl

theorem settled_of_not_slot {e : Expr} (other : e.isSlot = false) {outputs : List NamedExpr} :
    Settled groupKey outputs e ↔
      aliasFor? outputs e = none ∧ e.isAggregate = false ∧ groupKey.contains e = false := by
  cases e with
  | slot s => cases other
  | _ => rfl

theorem Settled.isAggregate {e : Expr} {outputs : List NamedExpr}
    (settled : Settled groupKey outputs e) : e.isAggregate = false := by
  cases kind : e.isSlot with
  | true => cases e <;> first | rfl | cases kind
  | false => exact ((settled_of_not_slot kind).1 settled).2.1

/-- What a step can do: keep a slot that is produced or no key, pass a key column through, refer to
an alias there is, or add one for an aggregate call or a key. -/
inductive Resolves (groupKey : List Expr) (r : Resolution) : Expr → Expr → Resolution → Prop
  | keep {s} (settled : Settled groupKey r.outputs (.slot s)) :
      Resolves groupKey r (.slot s) (.slot s) r
  | pass {s} (hidden : produces r.outputs s = false) (key : groupKey.contains (.slot s) = true) :
      Resolves groupKey r (.slot s) (.slot s) ⟨r.outputs ++ [.column s], r.supply⟩
  | refer {e a} (other : e.isSlot = false) (known : aliasFor? r.outputs e = some a) :
      Resolves groupKey r e (.slot a.slot) r
  | add {e} (other : e.isSlot = false) (unknown : aliasFor? r.outputs e = none)
      (needed : (e.isAggregate || groupKey.contains e) = true) :
      Resolves groupKey r e (.slot (Alias.freshUnnamed e r.supply).1.slot)
        ⟨r.outputs ++ [.aliased (Alias.freshUnnamed e r.supply).1],
          (Alias.freshUnnamed e r.supply).2⟩

theorem resolves_of_resolveStep {e x : Expr} {r t : Resolution}
    (found : resolveStep groupKey e r = some (x, t)) : Resolves groupKey r e x t := by
  cases kind : e.isSlot with
  | true =>
    cases e <;> simp only [Expr.isSlot, Bool.false_eq_true] at kind
    case slot s =>
      rw [resolveStep_slot] at found
      split at found
      · rename_i settled
        cases found
        exact .keep (by simpa [Settled] using settled)
      · rename_i new
        simp only [Bool.or_eq_true, Bool.not_eq_true', not_or, Bool.not_eq_true,
          Bool.not_eq_false] at new
        cases found
        exact .pass new.1 new.2
  | false =>
    rw [resolveStep_of_not_slot kind] at found
    split at found
    · rename_i a known
      cases found
      exact .refer kind known
    · rename_i unknown
      split at found
      · rename_i needed
        cases found
        exact .add kind unknown needed
      · cases found

theorem isSlot_of_resolveStep_none {e : Expr} {r : Resolution}
    (found : resolveStep groupKey e r = none) : e.isSlot = false := by
  cases e with
  | slot s =>
    rw [resolveStep_slot] at found
    split at found <;> cases found
  | _ => rfl

theorem settled_of_resolveStep_none {e : Expr} {r : Resolution}
    (found : resolveStep groupKey e r = none) : Settled groupKey r.outputs e := by
  have kind := isSlot_of_resolveStep_none found
  rw [resolveStep_of_not_slot kind] at found
  rw [settled_of_not_slot kind]
  split at found
  · cases found
  · rename_i unknown
    split at found
    · cases found
    · rename_i idle
      simp only [Bool.or_eq_true, not_or, Bool.not_eq_true] at idle
      exact ⟨unknown, idle⟩

theorem settled_iff {e : Expr} {r : Resolution} :
    Settled groupKey r.outputs e ↔ ∀ x, resolveStep groupKey e r = some x → x = (e, r) := by
  constructor
  · rintro settled ⟨x, t⟩ found
    cases resolves_of_resolveStep found with
    | keep => rfl
    | pass hidden key => simp [Settled, hidden, key] at settled
    | refer other known =>
      rw [settled_of_not_slot other, known] at settled
      cases settled.1
    | add other unknown needed =>
      rw [settled_of_not_slot other] at settled
      simp [settled.2] at needed
  · intro idle
    cases found : resolveStep groupKey e r with
    | none => exact settled_of_resolveStep_none found
    | some next =>
      obtain ⟨x, t⟩ := next
      have same := idle _ found
      cases resolves_of_resolveStep found with
      | keep settled => exact settled
      | pass =>
        have longer := congrArg (fun next => next.2.outputs.length) same
        simp at longer
      | refer other | add other =>
        have slot := congrArg (fun next => next.1.isSlot) same
        rw [other] at slot
        cases slot

theorem stable_iff {e : Expr} {r : Resolution} :
    Expr.Stable (resolveStep groupKey) r e ↔
      ∀ part ∈ e.postorder, Settled groupKey r.outputs part := by
  simp only [Expr.Stable, settled_iff]

theorem Resolves.grows {e x : Expr} {r t : Resolution} (step : Resolves groupKey r e x t) :
    r.outputs <+: t.outputs := by
  cases step with
  | keep | refer => exact List.prefix_rfl
  | pass | add => exact List.prefix_append ..

theorem outputs_prefix_resolve (predicates : Conjuncts) (r : Resolution) :
    r.outputs <+: (resolve groupKey predicates r).2.outputs := by
  apply Expr.state_replaceAll (R := fun r t : Resolution => r.outputs <+: t.outputs)
  · exact fun r => List.prefix_rfl
  · exact fun r t u first second => first.trans second
  · exact fun r e x t found => (resolves_of_resolveStep found).grows

theorem Resolves.next_le {e x : Expr} {r t : Resolution} (step : Resolves groupKey r e x t) :
    r.supply.next ≤ t.supply.next := by
  cases step with
  | keep | pass | refer => exact Nat.le_refl _
  | add => exact Nat.le_succ _

theorem next_le_resolve (predicates : Conjuncts) (r : Resolution) :
    r.supply.next ≤ (resolve groupKey predicates r).2.supply.next := by
  apply Expr.state_replaceAll (R := fun r t : Resolution => r.supply.next ≤ t.supply.next)
  · exact fun r => Nat.le_refl _
  · exact fun r t u first second => Nat.le_trans first second
  · exact fun r e x t found => (resolves_of_resolveStep found).next_le

theorem outputs_resolve_eq {predicates : Conjuncts} {r : Resolution}
    (same : ¬ r.outputs.length < (resolve groupKey predicates r).2.outputs.length) :
    (resolve groupKey predicates r).2.outputs = r.outputs :=
  ((outputs_prefix_resolve predicates r).eq_of_length_le (Nat.le_of_not_lt same)).symm

theorem Resolves.idle_or_less {e x : Expr} {r t : Resolution} (step : Resolves groupKey r e x t) :
    (e.children = [] ∧ x = e ∧ t = r) ∨
      x.weight + hiddenKeys groupKey t.outputs < e.weight + hiddenKeys groupKey r.outputs := by
  have positive {e : Expr} (other : e.isSlot = false) : 0 < e.weight := by
    rw [Expr.weight_eq, other]
    simp
  have single (s : Slot) : (Expr.slot s).weight = 0 := rfl
  cases step with
  | keep => exact Or.inl ⟨rfl, rfl, rfl⟩
  | pass hidden key =>
    have fewer := hiddenKeys_column_lt key hidden
    exact Or.inr (by simpa [single] using fewer)
  | refer other known =>
    have less := positive other
    exact Or.inr (by simpa [single] using less)
  | add other unknown needed =>
    have less := positive other
    have fewer := hiddenKeys_append_le groupKey r.outputs
      [.aliased (Alias.freshUnnamed e r.supply).1]
    refine Or.inr ?_
    simp only [single]
    omega

/-- Every part of every predicate is settled, or resolving lowers the measure. -/
theorem settled_or_measure_lt (groupKey : List Expr) (predicates : Conjuncts) (r : Resolution) :
    AllSettled groupKey r.outputs predicates ∨
      measure groupKey (resolve groupKey predicates r).2.outputs
        (resolve groupKey predicates r).1 < measure groupKey r.outputs predicates := by
  have change := Expr.replaceAll_stable_or_less (resolveStep groupKey)
    (fun r => hiddenKeys groupKey r.outputs)
    (fun r e x t found => (resolves_of_resolveStep found).idle_or_less) predicates.toList r
  rcases change with stable | less
  · exact Or.inl fun p mem => stable_iff.1 (stable p mem)
  · -- Merging equal predicates only lowers the weight further.
    have merged := SortedSet.sum_ofList_le Expr.weight
      (Expr.replaceAll (resolveStep groupKey) predicates.toList r).1
    refine Or.inr ?_
    simp only [measure, resolve]
    omega

theorem settled_of_resolve_beq {predicates : Conjuncts} {r : Resolution}
    (outputs : (resolve groupKey predicates r).2.outputs = r.outputs)
    (equal : ((resolve groupKey predicates r).1 == predicates) = true) :
    AllSettled groupKey r.outputs predicates := by
  rcases settled_or_measure_lt groupKey predicates r with settled | less
  · exact settled
  · have weights : (resolve groupKey predicates r).1.toList.map Expr.weight =
        predicates.toList.map Expr.weight :=
      map_eq_of_beq (fun _ _ => Expr.weight_eq_of_beq) equal
    rw [measure, measure, weights, outputs] at less
    exact (Nat.lt_irrefl _ less).elim

theorem resolve_settled {predicates : Conjuncts} {r : Resolution}
    (settled : AllSettled groupKey r.outputs predicates) :
    resolve groupKey predicates r = (predicates, r) := by
  have stable : Expr.replaceAll (resolveStep groupKey) predicates.toList r =
      (predicates.toList, r) :=
    Expr.replaceAll_stable fun p mem => stable_iff.2 (settled p mem)
  simp only [resolve, stable, SortedSet.ofList_toList]

section
variable {predicates : Conjuncts} {conditions : Option Conjuncts} {r : Resolution}

theorem aggregateFrame?_grown
    (grown : r.outputs.length < (resolve groupKey predicates r).2.outputs.length) :
    aggregateFrame? predicates conditions groupKey r.outputs r.supply =
      some (fun input => (overAggregate groupKey (resolve groupKey predicates r).2.outputs
          conditions (resolve groupKey predicates r).1 input).projectSlots
            (r.outputs.map NamedExpr.slot) false,
        (resolve groupKey predicates r).2.supply) :=
  if_pos grown

theorem aggregateFrame?_same
    (same : ¬ r.outputs.length < (resolve groupKey predicates r).2.outputs.length)
    (equal : ((resolve groupKey predicates r).1 == predicates) = true) :
    aggregateFrame? predicates conditions groupKey r.outputs r.supply = none :=
  (if_neg same).trans (if_pos equal)

theorem aggregateFrame?_changed
    (same : ¬ r.outputs.length < (resolve groupKey predicates r).2.outputs.length)
    (changed : ¬ ((resolve groupKey predicates r).1 == predicates) = true) :
    aggregateFrame? predicates conditions groupKey r.outputs r.supply =
      some (overAggregate groupKey (resolve groupKey predicates r).2.outputs conditions
        (resolve groupKey predicates r).1, (resolve groupKey predicates r).2.supply) :=
  (if_neg same).trans (if_neg changed)

theorem aggregateFrame?_some {frame : Frame} {next : Supply}
    (found : aggregateFrame? predicates conditions groupKey r.outputs r.supply =
      some (frame, next)) :
    next = (resolve groupKey predicates r).2.supply ∧
      ((r.outputs.length < (resolve groupKey predicates r).2.outputs.length ∧
          frame = fun input => (overAggregate groupKey (resolve groupKey predicates r).2.outputs
            conditions (resolve groupKey predicates r).1 input).projectSlots
              (r.outputs.map NamedExpr.slot) false) ∨
        (¬ ((resolve groupKey predicates r).1 == predicates) = true ∧
          (resolve groupKey predicates r).2.outputs = r.outputs ∧
          frame = overAggregate groupKey r.outputs conditions
            (resolve groupKey predicates r).1)) := by
  by_cases grown : r.outputs.length < (resolve groupKey predicates r).2.outputs.length
  · rw [aggregateFrame?_grown grown] at found
    cases found
    exact ⟨rfl, Or.inl ⟨grown, rfl⟩⟩
  · by_cases equal : ((resolve groupKey predicates r).1 == predicates) = true
    · rw [aggregateFrame?_same grown equal] at found
      cases found
    · rw [aggregateFrame?_changed grown equal, outputs_resolve_eq grown] at found
      cases found
      exact ⟨rfl, Or.inr ⟨equal, outputs_resolve_eq grown, rfl⟩⟩

theorem aggregateFrame?_eq_none_iff :
    aggregateFrame? predicates conditions groupKey r.outputs r.supply = none ↔
      AllSettled groupKey r.outputs predicates := by
  constructor
  · intro none
    by_cases grown : r.outputs.length < (resolve groupKey predicates r).2.outputs.length
    · rw [aggregateFrame?_grown grown] at none
      cases none
    · by_cases equal : ((resolve groupKey predicates r).1 == predicates) = true
      · exact settled_of_resolve_beq (outputs_resolve_eq grown) equal
      · rw [aggregateFrame?_changed grown equal] at none
        cases none
  · intro settled
    have still := resolve_settled settled
    apply aggregateFrame?_same
    · rw [still]
      exact Nat.lt_irrefl _
    · rw [still]
      exact BEq.rfl

end

end Qualify
end QueryPlan

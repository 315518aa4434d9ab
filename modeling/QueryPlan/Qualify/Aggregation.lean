import QueryPlan.Qualify.Projection

/-!
Completion of a qualify over an aggregation, with or without a having between the two. Predicates
are resolved over the outputs of the aggregation: what some output computes becomes a reference to
it, aggregate calls and group-key expressions become new outputs, and group-key columns are passed
through. Main statement: each new output lowers `measure`, so completing over and over ends.
-/
namespace QueryPlan
namespace Qualify

structure Resolution where
  outputs : List NamedExpr
  supply : Supply

def produces (outputs : List NamedExpr) (s : Slot) : Bool := outputs.any fun o => o.slot == s

def aliasFor? (outputs : List NamedExpr) (e : Expr) : Option Alias :=
  (outputs.filterMap NamedExpr.alias?).find? fun a => a.expr == e

def resolveStep (groupKey : List Expr) (e : Expr) (r : Resolution) : Option (Expr × Resolution) :=
  match e with
  | .slot s =>
    if produces r.outputs s || !groupKey.contains e then some (e, r)
    else some (e, ⟨r.outputs ++ [.column s], r.supply⟩)
  | _ =>
    match aliasFor? r.outputs e with
    | some a => some (.slot a.slot, r)
    | none =>
      if e.isAggregate || groupKey.contains e then
        let (a, supply) := Alias.freshUnnamed e r.supply
        some (.slot a.slot, ⟨r.outputs ++ [.aliased a], supply⟩)
      else none

def resolve (groupKey : List Expr) (predicates : Conjuncts) (r : Resolution) :
    Conjuncts × Resolution :=
  let (resolved, r) := Expr.replaceAll (resolveStep groupKey) predicates.toList r
  (.ofList resolved, r)

def overAggregate (groupKey : List Expr) (outputs : List NamedExpr)
    (conditions : Option Conjuncts) (predicates : Conjuncts) : Frame := fun input =>
  let grouped := input.aggregate groupKey outputs
  match conditions with
  | some conditions => (grouped.having conditions).qualify predicates
  | none => grouped.qualify predicates

/-- Completes a qualify over an aggregation. If outputs were added, a projection to those there
were before stands on top. There is no completion if neither outputs nor predicates change. -/
def aggregateFrame? (predicates : Conjuncts) (conditions : Option Conjuncts)
    (groupKey : List Expr) (outputs : List NamedExpr) (supply : Supply) :
    Option (Frame × Supply) :=
  let (resolved, r) := resolve groupKey predicates ⟨outputs, supply⟩
  let frame := overAggregate groupKey r.outputs conditions resolved
  if outputs.length < r.outputs.length then
    some (fun input => (frame input).projectSlots (outputs.map NamedExpr.slot) false, r.supply)
  else if resolved == predicates then none
  else some (frame, r.supply)

def isHidden (outputs : List NamedExpr) : Expr → Bool
  | .slot s => !produces outputs s
  | _ => false

def hiddenKeys (groupKey : List Expr) (outputs : List NamedExpr) : Nat :=
  groupKey.countP (isHidden outputs)

/-- Bounds the number of outputs that resolving the predicates can add, now or later. -/
def measure (groupKey : List Expr) (outputs : List NamedExpr) (predicates : Conjuncts) : Nat :=
  sum (predicates.toList.map Expr.weight) + hiddenKeys groupKey outputs

theorem isHidden_append {outputs added : List NamedExpr} {key : Expr}
    (h : isHidden (outputs ++ added) key = true) : isHidden outputs key = true := by
  cases key <;> simp_all [isHidden, produces]

theorem hiddenKeys_append_le (groupKey : List Expr) (outputs added : List NamedExpr) :
    hiddenKeys groupKey (outputs ++ added) ≤ hiddenKeys groupKey outputs :=
  List.countP_mono_left fun _ _ => isHidden_append

theorem countP_lt_of_mem {p q : α → Bool} {xs : List α} {x : α} (le : ∀ y, p y → q y)
    (mem : x ∈ xs) (hit : q x = true) (miss : p x = false) : xs.countP p < xs.countP q := by
  induction xs with
  | nil => simp at mem
  | cons y ys ih =>
    have others : ys.countP p ≤ ys.countP q := List.countP_mono_left fun y _ => le y
    simp only [List.countP_cons]
    rcases List.mem_cons.1 mem with rfl | mem
    · simp only [hit, miss]; simp; omega
    · have first := le y
      have rest := ih mem
      by_cases h : p y = true
      · simp only [h, first h]; omega
      · simp only [h]; simp; omega

theorem hiddenKeys_column_lt {groupKey : List Expr} {outputs : List NamedExpr} {s : Slot}
    (key : groupKey.contains (.slot s) = true) (hidden : produces outputs s = false) :
    hiddenKeys groupKey (outputs ++ [.column s]) < hiddenKeys groupKey outputs := by
  obtain ⟨k, mem, same⟩ := List.contains_iff_exists_mem_beq.1 key
  obtain ⟨t, rfl, id⟩ := Expr.slot_beq_iff.1 same
  refine countP_lt_of_mem (fun _ => isHidden_append) mem ?_ ?_
  · simpa [isHidden, produces, Slot.beq_iff, id] using hidden
  · simp [isHidden, produces, NamedExpr.slot, id]

/-- What resolving must not raise: the weight that is left, the keys still hidden and the outputs
there are. -/
def cost (groupKey : List Expr) (r : Resolution) : Nat :=
  hiddenKeys groupKey r.outputs + r.outputs.length

theorem cost_resolveStep_le {groupKey : List Expr} (e : Expr) (r : Resolution)
    (next : Expr × Resolution) (h : resolveStep groupKey e r = some next) :
    next.1.weight + cost groupKey next.2 ≤ e.weight + cost groupKey r := by
  cases slot : e.isSlot with
  | true =>
    cases e <;> simp only [Expr.isSlot, Bool.false_eq_true] at slot
    case slot s =>
      simp only [resolveStep] at h
      split at h
      · cases h; exact Nat.le_refl _
      · rename_i new
        simp only [Bool.or_eq_true, Bool.not_eq_true', not_or, Bool.not_eq_true,
          Bool.not_eq_false] at new
        cases h
        have := hiddenKeys_column_lt new.2 new.1
        simp only [cost, List.length_append, List.length_cons, List.length_nil]
        omega
  | false =>
    have positive : 1 ≤ e.weight := by rw [Expr.weight_eq, slot]; simp
    have single (s : Slot) : (Expr.slot s).weight = 0 := rfl
    have opened : resolveStep groupKey e r = match aliasFor? r.outputs e with
      | some a => some (.slot a.slot, r)
      | none =>
        if e.isAggregate || groupKey.contains e then
          some (.slot (Alias.freshUnnamed e r.supply).1.slot,
            ⟨r.outputs ++ [.aliased (Alias.freshUnnamed e r.supply).1],
              (Alias.freshUnnamed e r.supply).2⟩)
        else none := by
      cases e with
      | slot s => simp [Expr.isSlot] at slot
      | _ => rfl
    rw [opened] at h
    split at h
    · cases h
      simp only [single]
      omega
    · split at h
      · cases h
        have := hiddenKeys_append_le groupKey r.outputs
          [.aliased (Alias.freshUnnamed e r.supply).1]
        simp only [single, cost, List.length_append, List.length_cons, List.length_nil]
        omega
      · cases h

theorem measure_resolve_lt {groupKey : List Expr} {predicates : Conjuncts} {r : Resolution}
    (grown : r.outputs.length < (resolve groupKey predicates r).2.outputs.length) :
    measure groupKey (resolve groupKey predicates r).2.outputs
      (resolve groupKey predicates r).1 < measure groupKey r.outputs predicates := by
  have total := Expr.weight_replaceAll_le (cost groupKey) cost_resolveStep_le predicates.toList r
  have merged := SortedSet.sum_ofList_le Expr.weight
    (Expr.replaceAll (resolveStep groupKey) predicates.toList r).1
  simp only [measure, cost, resolve] at *
  omega

end Qualify

namespace Plan

/-- Completes a qualify with the given predicates over the plan, if it is an aggregation over
whose outputs they are not resolved. -/
def completeAggregate? (predicates : Conjuncts) (supply : Supply) : Plan → Option (Plan × Supply)
  | .aggregate input groupKey outputs =>
    (Qualify.aggregateFrame? predicates none groupKey outputs supply).map fun (frame, supply) =>
      (frame input, supply)
  | _ => none

def completeHavingAggregate? (predicates : Conjuncts) (supply : Supply) :
    Plan → Option (Plan × Supply)
  | .having (.aggregate input groupKey outputs) conditions =>
    (Qualify.aggregateFrame? predicates (some conditions) groupKey outputs supply).map
      fun (frame, supply) => (frame input, supply)
  | _ => none

end Plan
end QueryPlan

import QueryPlan.Proofs.Qualify.Extraction
import QueryPlan.Proofs.Qualify.Rebuilding
import QueryPlan.Proofs.Semantics.Rows

/-!
How completing qualifies changes what the nodes of a plan hold. Main statements: a completion
changes a few operators in a row and widens the one that computes the columns by as many aliases as
it takes identifiers; and what is so at each completion, and holds of the parts together whenever it
holds of each, holds from a plan to what a sweep makes of it.
-/
namespace QueryPlan

namespace Plan

def pile (operators : List Operator) (input : Plan) : Plan := operators.foldr unary input

theorem nodes_pile (operators : List Operator) (input : Plan) :
    (pile operators input).nodes = operators.map .operator ++ input.nodes := by
  induction operators with
  | nil => rfl
  | cons o os ih => exact congrArg (Node.operator o :: ·) ih

end Plan

@[simp] theorem computedIds_nil : computedIds [] = [] := rfl

@[simp] theorem computedIds_append (first second : List NamedExpr) :
    computedIds (first ++ second) = computedIds first ++ computedIds second := by
  simp [computedIds, computed]

@[simp] theorem computedIds_columns (slots : List Slot) :
    computedIds (slots.map .column) = [] := by
  simp [computedIds, computed, NamedExpr.alias?]

@[simp] theorem computedIds_aliased (aliases : List Alias) :
    computedIds (aliases.map .aliased) = aliasIds aliases := by
  simp [computedIds, computed, List.filterMap_map, Function.comp_def, NamedExpr.alias?,
    aliasIds]

namespace Qualify

def taken (s t : Supply) : List SlotId := List.range' s.next (t.next - s.next)

@[simp] theorem taken_self (s : Supply) : taken s s = [] := by
  simp [taken]

theorem taken_append {s t u : Supply} (first : s.next ≤ t.next) (second : t.next ≤ u.next) :
    taken s t ++ taken t u = taken s u := by
  have start : s.next + (t.next - s.next) = t.next := Nat.add_sub_of_le first
  have whole : (t.next - s.next) + (u.next - t.next) = u.next - s.next := by
    rw [Nat.add_comm, Nat.sub_add_sub_cancel second first]
  have joined := List.range'_append_1 (s := s.next) (m := t.next - s.next) (n := u.next - t.next)
  rwa [start, whole] at joined

/-- Each identifier taken from the supply is that of one alias added. -/
structure Adds (s t : Supply) (added : List NamedExpr) : Prop where
  next_le : s.next ≤ t.next
  ids : computedIds added = taken s t

section
variable {s t u : Supply} {added more : List NamedExpr}

theorem Adds.columns (s : Supply) (slots : List Slot) : Adds s s (slots.map .column) := by
  refine ⟨Nat.le_refl _, ?_⟩
  rw [computedIds_columns, taken_self]

theorem Adds.append (first : Adds s t added) (second : Adds t u more) :
    Adds s u (added ++ more) := by
  refine ⟨Nat.le_trans first.next_le second.next_le, ?_⟩
  rw [computedIds_append, first.ids, second.ids, taken_append first.next_le second.next_le]

theorem Adds.fresh (e : Expr) (s : Supply) :
    Adds s (Alias.freshUnnamed e s).2 [.aliased (Alias.freshUnnamed e s).1] := by
  refine ⟨Nat.le_succ _, ?_⟩
  rw [taken, show (Alias.freshUnnamed e s).2.next - s.next = 1 from Nat.add_sub_cancel_left ..]
  rfl

variable {groupKey : List Expr} {predicates : Conjuncts}

theorem adds_extraction (predicates : Conjuncts) (s : Supply) :
    Adds s (extraction predicates s).2.supply
      ((extraction predicates s).2.aliases.map .aliased) := by
  obtain ⟨_, consecutive, next⟩ := recorded_extraction predicates s
  constructor
  · rw [next]
    exact Nat.le_add_right ..
  · rw [computedIds_aliased, taken, next, Nat.add_sub_cancel_left, consecutive]

theorem supply_completion? {columns : List Slot} {completion : Completion}
    (found : completion? predicates (.ofList columns) s = some completion) :
    completion.supply = (extraction predicates s).2.supply := by
  rw [completion?_eq] at found
  split at found
  · cases found
  · cases found
    rfl

theorem adds_completion? {columns : List Slot} {completion : Completion}
    (found : completion? predicates (.ofList columns) s = some completion) :
    Adds s completion.supply completion.columns := by
  obtain ⟨_, columns⟩ := completion?_some found
  rw [columns, supply_completion? found]
  exact (adds_extraction predicates s).append (.columns _ _)

theorem Resolves.adds {e x : Expr} {r t : Resolution} (step : Resolves groupKey r e x t) :
    ∃ added, t.outputs = r.outputs ++ added ∧ Adds r.supply t.supply added := by
  cases step with
  | keep | refer => exact ⟨[], (List.append_nil _).symm, .columns _ []⟩
  | @pass s => exact ⟨_, rfl, .columns _ [s]⟩
  | add => exact ⟨_, rfl, .fresh _ _⟩

theorem adds_resolve (groupKey : List Expr) (predicates : Conjuncts) (r : Resolution) :
    ∃ added, (resolve groupKey predicates r).2.outputs = r.outputs ++ added ∧
      Adds r.supply (resolve groupKey predicates r).2.supply added := by
  apply Expr.state_replaceAll (R := fun r t : Resolution =>
    ∃ added, t.outputs = r.outputs ++ added ∧ Adds r.supply t.supply added)
  · exact fun r => ⟨[], (List.append_nil _).symm, .columns _ []⟩
  · rintro r t u ⟨first, grown, adds⟩ ⟨second, grown', adds'⟩
    exact ⟨first ++ second, by rw [grown', grown, List.append_assoc], adds.append adds'⟩
  · exact fun r e x t found => (resolves_of_resolveStep found).adds

end

def aggregateOperators (groupKey : List Expr) (outputs : List NamedExpr)
    (conditions : Option Conjuncts) (predicates : Conjuncts) : List Operator :=
  .qualify predicates :: (conditions.toList.map .having ++ [.aggregate groupKey outputs])

/-- The operators that completing a qualify puts in place of others. What it adds to the columns
takes the identifiers; a projection put on top takes none. -/
inductive Expanded (s t : Supply) : List Operator → List Operator → Prop
  | project {predicates projections distinct rewritten added} (columns : List Slot)
      (adds : Adds s t added) :
      Expanded s t [.qualify predicates, .project projections distinct]
        [.project (columns.map .column) distinct, .qualify rewritten,
          .project (projections ++ added) false]
  | having {predicates conditions projections rewritten added} (columns : List Slot)
      (adds : Adds s t added) :
      Expanded s t [.qualify predicates, .having conditions, .project projections false]
        [.project (columns.map .column) false, .having conditions, .qualify rewritten,
          .project (projections ++ added) false]
  | distinctHaving {predicates conditions projections rewritten added} (columns kept : List Slot)
      (adds : Adds s t added) :
      Expanded s t [.qualify predicates, .having conditions, .project projections true]
        [.project (columns.map .column) true, .having conditions,
          .project (kept.map .column) false, .qualify rewritten,
          .project (projections ++ added) false]
  | resolved {predicates conditions groupKey outputs rewritten added} (adds : Adds s t added) :
      Expanded s t (aggregateOperators groupKey outputs conditions predicates)
        (aggregateOperators groupKey (outputs ++ added) conditions rewritten)
  | extended {predicates conditions groupKey outputs rewritten added} (columns : List Slot)
      (adds : Adds s t added) :
      Expanded s t (aggregateOperators groupKey outputs conditions predicates)
        (.project (columns.map .column) false ::
          aggregateOperators groupKey (outputs ++ added) conditions rewritten)

def ExpandedTop (s t : Supply) (p q : Plan) : Prop :=
  ∃ before after input, p = Plan.pile before input ∧ q = Plan.pile after input ∧
    Expanded s t before after

section
variable {s t : Supply} {p q : Plan}

theorem overAggregate_eq_pile (groupKey : List Expr) (outputs : List NamedExpr)
    (conditions : Option Conjuncts) (predicates : Conjuncts) (input : Plan) :
    overAggregate groupKey outputs conditions predicates input =
      Plan.pile (aggregateOperators groupKey outputs conditions predicates) input := by
  cases conditions <;> rfl

theorem expandedTop_aggregateFrame? {groupKey : List Expr} {outputs : List NamedExpr}
    (conditions : Option Conjuncts) {predicates : Conjuncts} {frame : Frame} (input : Plan)
    (found : aggregateFrame? predicates conditions groupKey outputs s = some (frame, t)) :
    ExpandedTop s t (overAggregate groupKey outputs conditions predicates input)
      (frame input) := by
  obtain ⟨added, grown, adds⟩ := adds_resolve groupKey predicates ⟨outputs, s⟩
  have wider := overAggregate_eq_pile groupKey (resolve groupKey predicates ⟨outputs, s⟩).2.outputs
    conditions (resolve groupKey predicates ⟨outputs, s⟩).1 input
  obtain ⟨rfl, ⟨_, rfl⟩ | ⟨_, same, rfl⟩⟩ := aggregateFrame?_some (r := ⟨outputs, s⟩) found
  · refine ⟨_, .project ((outputs.map NamedExpr.slot).map .column) false :: _, input,
      overAggregate_eq_pile .., congrArg (Plan.unary _) wider, ?_⟩
    rw [grown]
    exact .extended _ adds
  · rw [← same]
    refine ⟨_, _, input, overAggregate_eq_pile .., wider, ?_⟩
    rw [grown]
    exact .resolved adds

theorem expandedTop_projectFrame? {predicates : Conjuncts} {projections : List NamedExpr}
    {distinct : Bool} {frame : Frame} (input : Plan)
    (found : projectFrame? predicates projections distinct s = some (frame, t)) :
    ExpandedTop s t ((input.project projections distinct).qualify predicates) (frame input) := by
  obtain ⟨completion, missing, built⟩ := Option.bind_eq_some_iff.1 found
  cases built
  exact ⟨_, _, input, rfl, rfl, .project _ (adds_completion? missing)⟩

theorem expandedTop_havingProjectFrame? {predicates conditions : Conjuncts}
    {projections : List NamedExpr} {distinct : Bool} {frame : Frame} (input : Plan)
    (found : havingProjectFrame? predicates conditions projections distinct s =
      some (frame, t)) :
    ExpandedTop s t (((input.project projections distinct).having conditions).qualify predicates)
      (frame input) := by
  obtain ⟨completion, missing, shape⟩ := havingProjectFrame?_cases found
  have adds : Adds s t completion.columns := by
    -- The cases leave the supply out; it is that of the completion, of which there is only one.
    obtain ⟨other, missing', built⟩ := Option.bind_eq_some_iff.1 found
    obtain rfl := Option.some.inj (missing.symm.trans missing')
    cases built
    exact adds_completion? missing
  obtain ⟨rfl, rfl⟩ | ⟨rfl, rfl⟩ := shape
  · exact ⟨_, _, input, rfl, rfl, .having _ adds⟩
  · exact ⟨_, _, input, rfl, rfl, .distinctHaving _ _ (adds.append (.columns _ _))⟩

theorem expandedTop_of_completeQualify? (completed : p.completeQualify? s = some (q, t)) :
    ExpandedTop s t p q := by
  unfold Plan.completeQualify? at completed
  split at completed
  case h_5 => cases completed
  all_goals obtain ⟨frame, found, rfl⟩ := exists_frame completed
  case h_1 => exact expandedTop_aggregateFrame? (some _) _ found
  case h_2 => exact expandedTop_havingProjectFrame? _ found
  case h_3 => exact expandedTop_aggregateFrame? none _ found
  case h_4 => exact expandedTop_projectFrame? _ found

end

/-- Said of supplies and nodes before and after: it is so where nothing changes, of changes one
after the other and side by side, and of operators that are expanded. -/
structure Compositional (R : Supply → Supply → List Node → List Node → Prop) : Prop where
  refl : ∀ s ns, R s s ns ns
  trans : ∀ {s t u ns ns' ns''}, R s t ns ns' → R t u ns' ns'' → R s u ns ns''
  append : ∀ {s t u ns ns' ms ms'}, R s t ns ns' → R t u ms ms' → R s u (ns ++ ms) (ns' ++ ms')
  expanded : ∀ {s t before after}, Expanded s t before after →
    R s t (before.map .operator) (after.map .operator)

namespace Compositional
variable {R : Supply → Supply → List Node → List Node → Prop} {p q : Plan} {s t : Supply}

theorem completeRoot (compositional : Compositional R) (root : p.completeRoot s = (q, t)) :
    R s t p.nodes q.nodes := by
  cases completed : p.completeQualify? s with
  | none =>
    rw [Plan.completeRoot_eq_self completed] at root
    cases root
    exact compositional.refl s _
  | some next =>
    obtain ⟨q', t'⟩ := next
    rw [Plan.completeRoot_eq completed] at root
    cases root
    obtain ⟨before, after, input, rfl, rfl, expanded⟩ := expandedTop_of_completeQualify? completed
    rw [Plan.nodes_pile, Plan.nodes_pile]
    exact compositional.append (compositional.expanded expanded) (compositional.refl t _)

theorem swept (compositional : Compositional R) {P : Plan → Plan → Prop}
    (visit : Plan.Swept P p s q t) : R s t p.nodes q.nodes := by
  -- The node is completed first, and then what it stands on now is visited.
  induction visit with
  | get root => exact compositional.completeRoot root
  | unary root _ _ _ below =>
    exact compositional.trans (compositional.completeRoot root)
      (compositional.append (compositional.refl _ [_]) below)
  | join root _ _ _ _ left right =>
    exact compositional.trans (compositional.completeRoot root)
      (compositional.append (compositional.refl _ [_]) (compositional.append left right))

theorem sweepQualify (compositional : Compositional R) (p : Plan) (s : Supply) :
    R s (p.sweepQualify s).2 p.nodes (p.sweepQualify s).1.nodes :=
  compositional.swept (p.swept_sweepQualify s)

end Compositional

end Qualify
end QueryPlan

import QueryPlan.Proofs.Analysis.Derivation
import QueryPlan.Proofs.Qualify.Windows

/-!
Whether what a completion builds reads only columns that are there. Main statement: a completed
projection does so exactly when every window call of the predicates reads only columns of the
projection's input. The column that a call is computed into stands beside the columns that the
projection computes itself, so it cannot read those.
-/
namespace QueryPlan

/-- From the root down to `input` every node reads only columns of the node under it. -/
inductive Plan.Scoped (input : Plan) : Plan → Prop
  | base : Scoped input input
  | unary {o p} (reads : ∀ e ∈ o.readings, e.Within p.output) (below : Scoped input p) :
      Scoped input (.unary o p)

theorem Plan.Scoped.of_unary {input p : Plan} {o : Operator} (below : input.size ≤ p.size)
    (scope : Scoped input (.unary o p)) :
    (∀ e ∈ o.readings, e.Within p.output) ∧ Scoped input p := by
  cases scope with
  | base =>
    rw [size_unary] at below
    omega
  | unary reads rest => exact ⟨reads, rest⟩

namespace Qualify

def CallsWithin (predicates : Conjuncts) (columns : List Slot) : Prop :=
  ∀ p ∈ predicates.toList, ∀ call ∈ p.postorder, call.isWindow = true → call.Within columns

section
variable {predicates : Conjuncts} {columns : List Slot} {supply : Supply} {completion : Completion}

theorem columns_within_iff
    (found : completion? predicates (.ofList columns) supply = some completion) {below : List Slot}
    (sources : ∀ p ∈ predicates.toList, p.Within (columns ++ below)) :
    (∀ c ∈ completion.columns, c.expr.Within below) ↔ CallsWithin predicates below := by
  obtain ⟨_, added⟩ := completion?_some found
  obtain ⟨_, results⟩ := extracted_replaceAll predicates.toList ⟨[], supply⟩
  rw [added]
  constructor
  · intro within p mem call sub window
    obtain ⟨_, _, done⟩ := exists_right_of_forall₂ results mem
    obtain ⟨a, found, outer, same, inner⟩ := done.computed call sub window
    have outerWithin : a.expr.Within below :=
      within (.aliased a) (List.mem_append_left _ (List.mem_map_of_mem found))
    exact ((Expr.within_iff_of_beq same).1 outerWithin).of_part inner
  · intro calls c mem
    rcases List.mem_append.1 mem with computed | passed
    · obtain ⟨a, found, rfl⟩ := List.mem_map.1 computed
      rcases occurs_of_mem_aliases predicates.toList ⟨[], supply⟩ a found with none | occurs
      · cases none
      · obtain ⟨p, stated, window, sub⟩ := occurs
        exact calls p stated a.expr sub window
    · obtain ⟨s, missing, rfl⟩ := List.mem_map.1 passed
      obtain ⟨⟨p, stated, read⟩, elsewhere⟩ := mem_absent missing
      have source := sources p stated s read
      rw [List.map_append, List.mem_append] at source
      exact Expr.within_slot.2 (source.resolve_left elsewhere)

end

section
variable {input : Plan} {projections : List NamedExpr} {distinct : Bool} {predicates : Conjuncts}
  {supply next : Supply}

theorem readings_projectSlots {slots columns : List Slot}
    (sub : ∀ s ∈ slots, s.id ∈ columns.map Slot.id) (distinct : Bool) :
    ∀ e ∈ (Operator.project (slots.map .column) distinct).readings, e.Within columns := by
  intro e mem
  obtain ⟨c, entry, rfl⟩ := List.mem_map.1 mem
  obtain ⟨s, kept, rfl⟩ := List.mem_map.1 entry
  exact Expr.within_slot.2 (sub s kept)

theorem scoped_projectFrame?_iff {frame : Frame}
    (entries : ∀ c ∈ projections, c.expr.Within input.output)
    (sources : ∀ p ∈ predicates.toList,
      p.Within (projections.map NamedExpr.slot ++ input.output))
    (found : projectFrame? predicates projections distinct supply = some (frame, next)) :
    Plan.Scoped input (frame input) ↔ CallsWithin predicates input.output := by
  obtain ⟨completion, missing, built⟩ := Option.bind_eq_some_iff.1 found
  cases built
  rw [← columns_within_iff missing sources]
  constructor
  · intro whole c mem
    obtain ⟨_, qualified⟩ := whole.of_unary (by simp; omega)
    obtain ⟨_, expanded⟩ := qualified.of_unary (by simp)
    obtain ⟨reads, _⟩ := expanded.of_unary (Nat.le_refl _)
    exact reads c.expr (List.mem_map_of_mem (List.mem_append_right _ mem))
  · intro added
    refine .unary (readings_projectSlots (fun s kept => ?_) distinct)
      (.unary (fun q mem => ?_) (.unary (fun e mem => ?_) .base))
    · obtain ⟨c, entry, rfl⟩ := List.mem_map.1 kept
      exact List.mem_map_of_mem (List.mem_map_of_mem (List.mem_append_left _ entry))
    · have within := (plain_of_completion? missing mem).2
      rwa [← List.map_append] at within
    · obtain ⟨c, entry, rfl⟩ := List.mem_map.1 mem
      exact (List.mem_append.1 entry).elim (entries c) (added c)

/-- Where the projection's entries read its input and the predicates read the projection or its
input, the completed plan is scoped exactly when no window call reads a column that only the
projection has. -/
theorem completed_projection_scoped_iff {fragment : Plan}
    (entries : ∀ c ∈ projections, c.expr.Within input.output)
    (sources : ∀ p ∈ predicates.toList,
      p.Within ((input.project projections distinct).output ++ input.output))
    (completed : (input.project projections distinct).completeProject? predicates supply =
      some (fragment, next)) :
    Plan.Scoped input fragment ↔
      ∀ p ∈ predicates.toList, ∀ call ∈ p.postorder, call.isWindow = true →
        ∀ s ∈ call.inputSlots.toList, s.id ∈ input.output.map Slot.id := by
  obtain ⟨⟨frame, t⟩, found, same⟩ := Option.map_eq_some_iff.1 completed
  cases same
  exact scoped_projectFrame?_iff entries sources found

end

namespace Shop

def price : Slot := ⟨1, "price"⟩

def tax : Slot := ⟨2, "tax"⟩

def total : Slot := ⟨3, "total"⟩

def orders : Plan := .get ⟨"orders", [price, tax]⟩

def totals : List NamedExpr :=
  [.column price, .aliased ⟨total, .binary .add (.slot price) (.slot tax)⟩]

def later (column : Slot) : Conjuncts :=
  .ofList [.binary .gt (.window .rowNumber [] [] [.slot column]) (.literal (.integer 1))]

theorem entries_totals : ∀ c ∈ totals, c.expr.Within orders.output := by decide

end Shop

open Shop in
theorem completed_projection_scoped_tax :
    ∃ fragment next, (orders.project totals false).completeProject? (later tax) ⟨4⟩ =
        some (fragment, next) ∧ Plan.Scoped orders fragment := by
  have sources : ∀ p ∈ (later tax).toList,
      p.Within ((orders.project totals false).output ++ orders.output) := by decide
  refine ⟨_, _, rfl, ?_⟩
  exact (completed_projection_scoped_iff entries_totals sources rfl).2 (by decide)

open Shop in
/-- Numbering by the computed column: the number stands beside the column it reads. -/
theorem completed_projection_unscoped_total :
    (∀ c ∈ totals, c.expr.Within orders.output) ∧
      (∀ p ∈ (later total).toList,
        p.Within ((orders.project totals false).output ++ orders.output)) ∧
      ∃ fragment next, (orders.project totals false).completeProject? (later total) ⟨4⟩ =
        some (fragment, next) ∧ ¬ Plan.Scoped orders fragment := by
  have sources : ∀ p ∈ (later total).toList,
      p.Within ((orders.project totals false).output ++ orders.output) := by decide
  have found : projectFrame? (later total) totals false ⟨4⟩ = some (_, _) := rfl
  refine ⟨entries_totals, sources, _, _, rfl, fun inScope => ?_⟩
  have calls := (scoped_projectFrame?_iff entries_totals sources found).1 inScope
  revert calls
  unfold CallsWithin
  decide

end Qualify
end QueryPlan

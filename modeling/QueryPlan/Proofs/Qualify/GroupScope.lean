import QueryPlan.Proofs.Qualify.Schema
import QueryPlan.Proofs.Qualify.Scope

/-!
Completed aggregations. Main statement: over predicates that calls build from what the aggregation
outputs, from its group keys, from what its aliases compute and from aggregate calls over its input,
what completion builds reads only columns that are there. Each part of a predicate that is not
replaced by an output is a call, so the induction reaches nothing the aggregation cannot produce.
-/
namespace QueryPlan
namespace Qualify

theorem produces_iff {outputs : List NamedExpr} {s : Slot} :
    produces outputs s = true ↔ s.id ∈ (outputs.map NamedExpr.slot).map Slot.id := by
  simp only [produces, List.any_eq_true, Slot.beq_iff, List.mem_map, exists_exists_and_eq_and]

/-- Built by calls from what an aggregation over `columns` computes or can be made to compute. -/
inductive Grouped (groupKey : List Expr) (outputs : List NamedExpr) (columns : List Slot) :
    Expr → Prop
  | output {s} (produced : produces outputs s = true) : Grouped groupKey outputs columns (.slot s)
  | key {e} (grouped : groupKey.contains e = true) : Grouped groupKey outputs columns e
  | computed {e a} (other : e.isSlot = false) (mem : .aliased a ∈ outputs)
      (same : (a.expr == e) = true) : Grouped groupKey outputs columns e
  | aggregate {f a d} (reads : a.Within columns) :
      Grouped groupKey outputs columns (.aggregate f a d)
  | call {e} (own : e.ownSlots = []) (kind : e.isAggregate = false)
      (args : ∀ c ∈ e.children, Grouped groupKey outputs columns c) :
      Grouped groupKey outputs columns e

theorem Grouped.binary {groupKey : List Expr} {outputs : List NamedExpr} {columns : List Slot}
    {f : BinaryFunc} {a b : Expr} (left : Grouped groupKey outputs columns a)
    (right : Grouped groupKey outputs columns b) :
    Grouped groupKey outputs columns (.binary f a b) := by
  refine .call rfl rfl fun c child => ?_
  rcases List.mem_cons.1 child with rfl | child
  · exact left
  · rwa [List.mem_singleton.1 child]

/-- The outputs extend the `first` ones and read only `columns`. -/
structure Grounded (columns : List Slot) (first : List NamedExpr) (r : Resolution) : Prop where
  grown : first <+: r.outputs
  entries : ∀ c ∈ r.outputs, c.expr.Within columns

section
variable {groupKey : List Expr} {first : List NamedExpr} {columns : List Slot} {e x : Expr}
  {r t : Resolution}

theorem within_of_key (keys : ∀ k ∈ groupKey, k.Within columns)
    (grouped : groupKey.contains e = true) : e.Within columns := by
  obtain ⟨k, mem, same⟩ := List.contains_iff_exists_mem_beq.1 grouped
  exact (Expr.within_iff_of_beq same).2 (keys k mem)

theorem Grouped.slot {s : Slot} (built : Grouped groupKey first columns (.slot s)) :
    produces first s = true ∨ groupKey.contains (.slot s) = true := by
  cases built with
  | output produced => exact Or.inl produced
  | key grouped => exact Or.inr grouped
  | computed other => cases other
  | call own => cases own

theorem Grouped.within (keys : ∀ k ∈ groupKey, k.Within columns)
    (entries : ∀ c ∈ first, c.expr.Within columns) (built : Grouped groupKey first columns e)
    (needed : (e.isAggregate || groupKey.contains e) = true) : e.Within columns := by
  cases built with
  | output => exact within_of_key keys needed
  | key grouped => exact within_of_key keys grouped
  | computed _ mem same => exact (Expr.within_iff_of_beq same).1 (entries _ mem)
  | aggregate reads =>
    rw [Expr.within_iff]
    refine ⟨fun s own => (List.not_mem_nil own).elim, fun c child => ?_⟩
    rwa [List.mem_singleton.1 child]
  | call _ kind =>
    rw [kind] at needed
    exact within_of_key keys needed

theorem Grouped.call_of_none (built : Grouped groupKey first columns e)
    (grown : first <+: r.outputs) (found : resolveStep groupKey e r = none) :
    e.ownSlots = [] ∧ ∀ c ∈ e.children, Grouped groupKey first columns c := by
  -- What an output computes, a key and an aggregate call are each replaced as a whole.
  have kind := isSlot_of_resolveStep_none found
  have settled := (settled_of_not_slot kind).1 (settled_of_resolveStep_none found)
  cases built with
  | output => cases kind
  | key grouped =>
    rw [grouped] at settled
    cases settled.2.2
  | computed other mem same =>
    have there := mem_aliasesOf.2 (grown.subset mem)
    exact (List.find?_eq_none.1 settled.1 _ there same).elim
  | aggregate => cases settled.2.1
  | call own _ args => exact ⟨own, args⟩

theorem Grounded.append {c : NamedExpr} {supply : Supply} (grounded : Grounded columns first r)
    (entry : c.expr.Within columns) : Grounded columns first ⟨r.outputs ++ [c], supply⟩ where
  grown := grounded.grown.trans (List.prefix_append ..)
  entries d mem := by
    rcases List.mem_append.1 mem with old | new
    · exact grounded.entries d old
    · rwa [List.mem_singleton.1 new]

theorem id_mem_outputs {c : NamedExpr} {outputs : List NamedExpr} (mem : c ∈ outputs) :
    c.slot.id ∈ (outputs.map NamedExpr.slot).map Slot.id :=
  List.mem_map_of_mem (List.mem_map_of_mem mem)

theorem id_mem_of_produces (grown : first <+: r.outputs) {s : Slot}
    (produced : produces first s = true) :
    s.id ∈ (r.outputs.map NamedExpr.slot).map Slot.id :=
  List.map_subset _ (List.map_subset _ grown.subset) (produces_iff.1 produced)

theorem Resolves.grounded (step : Resolves groupKey r e x t)
    (keys : ∀ k ∈ groupKey, k.Within columns) (built : Grouped groupKey first columns e)
    (grounded : Grounded columns first r) :
    Grounded columns first t ∧ x.Within (t.outputs.map NamedExpr.slot) := by
  have entries : ∀ c ∈ first, c.expr.Within columns :=
    fun c mem => grounded.entries c (grounded.grown.subset mem)
  cases step with
  | keep settled =>
    refine ⟨grounded, Expr.within_slot.2 ?_⟩
    rcases built.slot with produced | grouped
    · exact id_mem_of_produces grounded.grown produced
    · exact produces_iff.1 (settled.resolve_right (by rw [grouped]; exact Bool.noConfusion))
  | pass hidden grouped =>
    refine ⟨grounded.append (within_of_key keys grouped), Expr.within_slot.2 ?_⟩
    exact id_mem_outputs (List.mem_append_right _ (List.mem_singleton_self _))
  | refer other known =>
    exact ⟨grounded, Expr.within_slot.2
      (id_mem_outputs (mem_aliasesOf.1 (aliasFor?_some known).1))⟩
  | add other unknown needed =>
    refine ⟨grounded.append (built.within keys entries needed), Expr.within_slot.2 ?_⟩
    exact id_mem_outputs (List.mem_append_right _ (List.mem_singleton_self _))

theorem within_of_children {cs : List Expr} {slots : List Slot} (own : e.ownSlots = [])
    (parts : List.Forall₂ (fun _ c => c.Within slots) e.children cs) :
    (e.withChildren cs).Within slots := by
  rw [Expr.within_iff, Expr.ownSlots_withChildren, own,
    Expr.children_withChildren parts.length_eq.symm]
  refine ⟨fun s mem => (List.not_mem_nil mem).elim, fun c child => ?_⟩
  obtain ⟨_, _, within⟩ := exists_left_of_forall₂ parts child
  exact within

theorem grounded_resolve {predicates : Conjuncts} (keys : ∀ k ∈ groupKey, k.Within columns)
    (entries : ∀ c ∈ r.outputs, c.expr.Within columns)
    (built : ∀ p ∈ predicates.toList, Grouped groupKey r.outputs columns p) :
    Grounded columns r.outputs (resolve groupKey predicates r).2 ∧
      ∀ q ∈ (resolve groupKey predicates r).1.toList,
        q.Within ((resolve groupKey predicates r).2.outputs.map NamedExpr.slot) := by
  have kept : Grounded columns r.outputs (resolve groupKey predicates r).2 ∧
      r.outputs <+: (resolve groupKey predicates r).2.outputs ∧
      List.Forall₂
        (fun _ q => q.Within ((resolve groupKey predicates r).2.outputs.map NamedExpr.slot))
        predicates.toList (Expr.replaceAll (resolveStep groupKey) predicates.toList r).1 := by
    refine Expr.replaceAll_keeps (A := Grouped groupKey r.outputs columns)
      (R := fun s t : Resolution => s.outputs <+: t.outputs)
      (Q := fun t _ q => q.Within (t.outputs.map NamedExpr.slot))
      ?_ ?_ ?_ ?_ ?_ ?_ ⟨List.prefix_rfl, entries⟩ built
    · exact fun s => List.prefix_rfl
    · exact fun s t u first second => first.trans second
    · intro s t e q grown within
      exact within.mono (List.map_subset _ (List.map_subset _ grown.subset))
    · intro s e x t found grounded admitted
      have step := resolves_of_resolveStep found
      obtain ⟨still, within⟩ := step.grounded keys admitted grounded
      exact ⟨still, step.grows, within⟩
    · intro s e found grounded admitted
      exact (admitted.call_of_none grounded.grown found).2
    · intro s e cs t found grounded admitted parts
      exact within_of_children (admitted.call_of_none grounded.grown found).1 parts
  obtain ⟨grounded, _, results⟩ := kept
  refine ⟨grounded, fun q mem => ?_⟩
  obtain ⟨_, _, within⟩ := exists_left_of_forall₂ results (SortedSet.mem_of_mem_ofList mem)
  exact within

end

section
variable {input fragment : Plan} {groupKey : List Expr} {outputs : List NamedExpr}
  {predicates : Conjuncts} {conditions : Option Conjuncts} {supply next : Supply}

theorem scoped_overAggregate {resolved : Conjuncts} (keys : ∀ k ∈ groupKey, k.Within input.output)
    (entries : ∀ c ∈ outputs, c.expr.Within input.output)
    (reads : ∀ c ∈ conditions, ∀ p ∈ c.toList, p.Within (outputs.map NamedExpr.slot))
    (within : ∀ q ∈ resolved.toList, q.Within (outputs.map NamedExpr.slot)) :
    Plan.Scoped input (overAggregate groupKey outputs conditions resolved input) := by
  have grouped : Plan.Scoped input (input.aggregate groupKey outputs) := by
    refine .unary (fun e mem => ?_) .base
    rcases List.mem_append.1 mem with key | entry
    · exact keys e key
    · obtain ⟨c, there, rfl⟩ := List.mem_map.1 entry
      exact entries c there
  cases conditions with
  | none => exact .unary within grouped
  | some conditions => exact .unary within (.unary (reads conditions rfl) grouped)

theorem scoped_aggregateFrame? {frame : Frame} (keys : ∀ k ∈ groupKey, k.Within input.output)
    (entries : ∀ c ∈ outputs, c.expr.Within input.output)
    (reads : ∀ c ∈ conditions, ∀ p ∈ c.toList, p.Within (outputs.map NamedExpr.slot))
    (built : ∀ p ∈ predicates.toList, Grouped groupKey outputs input.output p)
    (found : aggregateFrame? predicates conditions groupKey outputs supply =
      some (frame, next)) : Plan.Scoped input (frame input) := by
  obtain ⟨grounded, within⟩ := @grounded_resolve groupKey input.output ⟨outputs, supply⟩ _ keys
    entries built
  have kept := List.map_subset Slot.id (List.map_subset NamedExpr.slot grounded.grown.subset)
  have grouped := scoped_overAggregate keys grounded.entries
    (fun c mem p stated => (reads c mem p stated).mono kept) within
  obtain ⟨_, ⟨_, rfl⟩ | ⟨_, same, rfl⟩⟩ := aggregateFrame?_some (r := ⟨outputs, supply⟩) found
  · refine .unary (readings_projectSlots (fun s mem => ?_) false) grouped
    rw [output_overAggregate]
    exact kept (List.mem_map_of_mem mem)
  · rwa [same] at grouped

/-- Whether or not a having stands in between. -/
theorem completed_aggregation_scoped (keys : ∀ k ∈ groupKey, k.Within input.output)
    (entries : ∀ c ∈ outputs, c.expr.Within input.output)
    (built : ∀ p ∈ predicates.toList, Grouped groupKey outputs input.output p)
    (completed : (input.aggregate groupKey outputs).completeAggregate? predicates supply =
        some (fragment, next) ∨
      ∃ conditions : Conjuncts,
        (∀ p ∈ conditions.toList, p.Within (input.aggregate groupKey outputs).output) ∧
        ((input.aggregate groupKey outputs).having conditions).completeHavingAggregate? predicates
          supply = some (fragment, next)) :
    Plan.Scoped input fragment := by
  rcases completed with completed | ⟨conditions, reads, completed⟩
  · obtain ⟨frame, found, rfl⟩ := exists_frame completed
    exact scoped_aggregateFrame? keys entries (fun c none => by cases none) built found
  · obtain ⟨frame, found, rfl⟩ := exists_frame completed
    refine scoped_aggregateFrame? keys entries (fun c stated => ?_) built found
    cases stated
    exact reads

end

namespace Shop

def taxSum : Expr := .aggregate .sum (.slot tax) false

def groupings : List Expr := [.slot price, .slot tax, .binary .add (.slot price) (.slot tax)]

def groupTotals : List NamedExpr := [.column price, .aliased ⟨total, taxSum⟩]

def crowded : List Expr :=
  [.binary .gt (.slot tax) (.binary .add (.slot price) (.slot tax)),
    .binary .lt (.window .rank [] [.slot price] [taxSum]) (.aggregate .count (.slot tax) true)]

def large : Conjuncts := .ofList [.binary .gt (.slot total) (.literal (.integer 5))]

end Shop

open Shop in
theorem completed_aggregation_scoped_crowded :
    (∀ p ∈ crowded, Grouped groupings groupTotals orders.output p) ∧
      ∃ fragment next, ((orders.aggregate groupings groupTotals).having
          large).completeHavingAggregate? (.ofList crowded) ⟨4⟩ = some (fragment, next) ∧
        Plan.Scoped orders fragment := by
  have keys : ∀ k ∈ groupings, k.Within orders.output := by decide
  have entries : ∀ c ∈ groupTotals, c.expr.Within orders.output := by decide
  have reads : ∀ p ∈ large.toList, p.Within (orders.aggregate groupings groupTotals).output := by
    decide
  have built : ∀ p ∈ crowded, Grouped groupings groupTotals orders.output p := by
    intro p mem
    simp only [crowded, List.mem_cons, List.not_mem_nil, or_false] at mem
    rcases mem with rfl | rfl
    · exact .binary (.key rfl) (.key rfl)
    · refine .binary (.call rfl rfl fun c child => ?_) (.aggregate (by decide))
      simp only [Expr.children, List.nil_append, List.cons_append, List.mem_cons,
        List.not_mem_nil, or_false] at child
      rcases child with rfl | rfl
      · exact .key rfl
      · exact .computed rfl (List.mem_cons_of_mem _ (List.mem_singleton_self _)) rfl
  have completed : ((orders.aggregate groupings groupTotals).having
      large).completeHavingAggregate? (.ofList crowded) ⟨4⟩ = some (_, _) := rfl
  refine ⟨built, _, _, completed, ?_⟩
  exact completed_aggregation_scoped keys entries
    (fun p mem => built p (SortedSet.mem_of_mem_ofList mem)) (Or.inr ⟨large, reads, completed⟩)

end Qualify
end QueryPlan

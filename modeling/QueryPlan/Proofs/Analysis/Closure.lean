import QueryPlan.Proofs.Analysis.InferenceSoundness
import QueryPlan.Proofs.Analysis.Propagation
import QueryPlan.Proofs.Analysis.Soundness

/-!
Effective predicates have all that follows among them. Main statements: under equality propagation
nothing more follows from the predicates of a node, however many columns were dropped below it; and
so a join that keeps the facts of one side keeps them as they are, whatever the other side is.
-/
namespace QueryPlan
namespace Inference

def restrict (predicates : Conjuncts) (columns : List Slot) : Conjuncts :=
  predicates.filter fun p => p.inputSlots.isSubset (.ofList columns)

section
variable {predicates : Conjuncts} {columns : List Slot}

theorem contains_restrict_iff {e : Expr} :
    (restrict predicates columns).contains e = true ↔
      predicates.contains e = true ∧ e.Within columns := by
  rw [contains_iff_beq, contains_iff_beq]
  simp only [restrict, SortedSet.toList_filter, List.mem_filter, Expr.isSubset_ofList_iff]
  constructor
  · rintro ⟨p, ⟨mem, within⟩, equal⟩
    exact ⟨⟨p, mem, equal⟩, (Expr.within_iff_of_beq equal).2 within⟩
  · rintro ⟨⟨p, mem, equal⟩, within⟩
    exact ⟨p, ⟨mem, (Expr.within_iff_of_beq equal).1 within⟩, equal⟩

theorem within_equality_iff {s t : Slot} :
    (Expr.equality s t).Within columns ↔
      s.id ∈ columns.map Slot.id ∧ t.id ∈ columns.map Slot.id := by
  rw [Expr.within_iff, ← Expr.within_slot, ← Expr.within_slot]
  simp [Expr.equality, Expr.ownSlots, Expr.children]

theorem Linked.eq_or_within {a b : SlotId} (linked : Linked (restrict predicates columns) a b) :
    a = b ∨ (a ∈ columns.map Slot.id ∧ b ∈ columns.map Slot.id) := by
  induction linked with
  | rel a b link =>
    obtain ⟨s, t, stated, rfl, rfl⟩ := link
    exact Or.inr (within_equality_iff.1 (contains_restrict_iff.1 stated).2)
  | refl a => exact Or.inl rfl
  | symm a b _ ih => exact ih.imp Eq.symm And.symm
  | trans a b c _ _ first second =>
    rcases first with rfl | ⟨left, middle⟩
    · exact second
    · rcases second with rfl | ⟨_, right⟩
      · exact Or.inr ⟨left, middle⟩
      · exact Or.inr ⟨left, right⟩

theorem Linked.of_restrict {a b : SlotId} (linked : Linked (restrict predicates columns) a b) :
    Linked predicates a b :=
  linked.lift fun s t stated => .rel _ _ ⟨s, t, (contains_restrict_iff.1 stated).1, rfl, rfl⟩

theorem within_rename {p : Expr} {s t : Slot} (plain : p.containsSubquery = false)
    (just : p.ReadsJust s.id) (column : t.id ∈ columns.map Slot.id) :
    (p.rename s t).Within columns := by
  refine (Expr.readsOnly_rename_iff (P := (· ∈ columns.map Slot.id)) plain).2 fun x read => ?_
  exact (if_pos ((Expr.readsJust_iff.1 just).1 x read)).mpr column

theorem equality_eq_nil_iff :
    (equality predicates).toList = [] ↔ ∀ e, ¬ Propagated predicates e := by
  constructor
  · intro none e follows
    have found := contains_of_propagated follows
    rw [SortedSet.contains, none] at found
    cases found
  · intro none
    refine SortedSet.toList_eq_nil fun e => Bool.eq_false_iff.2 fun there => ?_
    obtain ⟨found, follows, _⟩ := contains_equality_iff.1 there
    exact none found follows

/-- What follows from the predicates that are kept follows from all, so it is among all; and it
reads only columns that the kept ones read, so it is kept. -/
theorem equality_restrict (closed : (equality predicates).toList = []) (columns : List Slot) :
    (equality (restrict predicates columns)).toList = [] := by
  rw [equality_eq_nil_iff] at closed ⊢
  have dropped {e : Expr} (new : (restrict predicates columns).contains e = false)
      (within : e.Within columns) : predicates.contains e = false := by
    rw [Bool.eq_false_iff] at new ⊢
    exact fun there => new (contains_restrict_iff.2 ⟨there, within⟩)
  intro e follows
  cases follows with
  | @equality a b linked less new new' =>
    obtain ⟨left, right⟩ := linked.eq_or_within.resolve_left (Nat.ne_of_lt less)
    exact closed _ (.equality linked.of_restrict less
      (dropped new (within_equality_iff.2 ⟨left, right⟩))
      (dropped new' (within_equality_iff.2 ⟨right, left⟩)))
  | @restatement p s t given other aggregates windows subqueries just linked differ new =>
    obtain ⟨column, _⟩ := linked.eq_or_within.resolve_left differ
    exact closed _ (.restatement (contains_restrict_iff.1 given).1 other aggregates windows
      subqueries just linked.of_restrict differ
      (dropped new (within_rename subqueries just column)))

/-- What is `known` of some columns, through whatever columns it follows, is `kept`. -/
structure KeepsLinked (known kept : Conjuncts) (columns : List Slot) : Prop where
  equalities : ∀ s t : Slot, s.id ∈ columns.map Slot.id → t.id ∈ columns.map Slot.id →
    s.id ≠ t.id → Linked known s.id t.id → states kept (s, t) = true
  restatements : ∀ p ∈ known.toList, ∀ s t : Slot, restatable? p = some s →
    t.id ∈ columns.map Slot.id → Linked known t.id s.id → kept.contains (p.rename s t) = true

theorem contains_completed {e : Expr} (known : predicates.contains e = true ∨
    Propagated predicates e) :
    (predicates.extend (equality predicates).toList).contains e = true := by
  rw [SortedSet.contains_union, Bool.or_eq_true]
  exact known.imp_right contains_of_propagated

theorem keepsLinked_restrict (predicates : Conjuncts) (columns : List Slot) :
    KeepsLinked predicates
      (restrict (predicates.extend (equality predicates).toList) columns) columns where
  equalities s t left right differ linked := by
    have kept {a b : Slot} (first : a.id ∈ columns.map Slot.id)
        (second : b.id ∈ columns.map Slot.id) (known : predicates.contains (.equality a b) = true ∨
          Propagated predicates (.equality a b)) :
        (restrict (predicates.extend (equality predicates).toList) columns).contains
          (.equality a b) = true :=
      contains_restrict_iff.2
        ⟨contains_completed known, within_equality_iff.2 ⟨first, second⟩⟩
    rw [states, Bool.or_eq_true]
    cases given : predicates.contains (.equality s t) with
    | true => exact Or.inl (kept left right (Or.inl given))
    | false =>
      cases given' : predicates.contains (.equality t s) with
      | true => exact Or.inr (kept right left (Or.inl given'))
      | false =>
        rcases Nat.lt_or_gt_of_ne differ with less | more
        · exact Or.inl (kept left right (Or.inr (.equality linked less given given')))
        · exact Or.inr (kept right left (Or.inr (.equality linked.symm more given' given)))
  restatements p mem s t allowed column linked := by
    obtain ⟨other, aggregates, windows, subqueries, slots⟩ := restatable?_eq_some_iff.1 allowed
    have just : p.ReadsJust s.id := congrArg (List.map Slot.id) slots
    have given := SortedSet.contains_of_mem mem
    refine contains_restrict_iff.2 ⟨contains_completed ?_, within_rename subqueries just column⟩
    by_cases same : t.id = s.id
    · rw [contains_beq (Expr.rename_self_beq (Expr.readsJust_iff.1 just).1 same)]
      exact Or.inl given
    · cases new : predicates.contains (p.rename s t) with
      | true => exact Or.inl rfl
      | false =>
        exact Or.inr (.restatement given other aggregates windows subqueries just linked same new)

end
end Inference

namespace EffectivePredicates
open Inference
variable {infer : Inference}

theorem closed_available (node : Plan) (predicates : Conjuncts) :
    (Inference.equality (available .equality node predicates)).toList = [] :=
  equality_restrict (equality_closed predicates) node.output

theorem closed_effectivePredicates (p : Plan) :
    (Inference.equality (p.effectivePredicates .equality)).toList = [] := by
  rw [effectivePredicates_eq]
  split
  · exact closed_available p _
  · rfl

theorem available_eq_self {node : Plan} {predicates : Conjuncts}
    (closed : (infer predicates).toList = [])
    (within : ∀ p ∈ predicates.toList, p.Within node.output) :
    available infer node predicates = predicates := by
  apply SortedSet.ext
  rw [available, closed, SortedSet.toList_filter]
  refine List.filter_eq_self.2 fun p mem => ?_
  exact Expr.isSubset_ofList_iff.2 (within p mem)

theorem available_congr {node node' : Plan} (same : node.output = node'.output)
    (predicates : Conjuncts) :
    available infer node predicates = available infer node' predicates := by
  rw [available, available, Plan.outputSet, Plan.outputSet, same]

theorem available_effectivePredicates
    (closed : ∀ p : Plan, (infer (p.effectivePredicates infer)).toList = []) {node input : Plan}
    (columns : input.output ⊆ node.output) :
    available infer node (input.effectivePredicates infer) = input.effectivePredicates infer :=
  available_eq_self (closed input) fun _ mem =>
    (within_output mem).mono fun _ there => List.map_subset _ columns there

theorem subset_output_left {join : Join} (exposes : join.kind.outputsLeft = true) (l r : Plan) :
    l.output ⊆ (Plan.join join l r).output := by
  rw [Plan.output, Join.output, if_pos exposes]
  exact List.subset_append_left ..

theorem subset_output_right {join : Join} (exposes : join.kind.outputsRight = true) (l r : Plan) :
    r.output ⊆ (Plan.join join l r).output := by
  rw [Plan.output, Join.output, if_pos exposes]
  exact List.subset_append_right ..

end EffectivePredicates

open EffectivePredicates in
/-- The pass records for each node predicates from which nothing more follows; and of what was known
before columns were dropped, each equality and each restatement for columns of the node is among
them, whichever columns it follows through. -/
theorem Plan.effectivePredicates_closed (plan : Plan) :
    (Derived.of (analysis .equality) plan).results.toList =
        plan.postorder.map (Plan.effectivePredicates .equality) ∧
      ∀ node ∈ plan.postorder,
        (Inference.equality (node.effectivePredicates .equality)).toList = [] ∧
          ∀ known,
            facts node (node.children.map (Plan.effectivePredicates .equality)) = some known →
            Inference.KeepsLinked known (node.effectivePredicates .equality) node.output := by
  constructor
  · rw [effectivePredicates_derive, Derived.of_eq]
  · intro node _
    refine ⟨closed_effectivePredicates node, fun known found => ?_⟩
    rw [effectivePredicates_eq, found]
    exact Inference.keepsLinked_restrict known node.output

def Inference.Sample.ends : Plan :=
  ((Plan.get ⟨"t", columns⟩).filter chain).project
    [.column ⟨1, "a"⟩, .column ⟨3, "c"⟩] false

open Inference.Sample in
theorem Plan.effectivePredicates_closed_ends :
    Inference.states (ends.effectivePredicates .equality) (⟨1, "a"⟩, ⟨3, "c"⟩) = true ∧
      (Inference.equality (ends.effectivePredicates .equality)).toList = [] := by
  obtain ⟨closed, kept⟩ := (Plan.effectivePredicates_closed ends).2 ends (mem_postorder_self ends)
  obtain ⟨known, found, first, second⟩ : ∃ known,
      EffectivePredicates.facts ends (ends.children.map (Plan.effectivePredicates .equality)) =
          some known ∧
        known.contains (.equality ⟨1, "a"⟩ ⟨2, "b"⟩) = true ∧
        known.contains (.equality ⟨2, "b"⟩ ⟨3, "c"⟩) = true :=
    ⟨_, rfl, by decide +kernel, by decide +kernel⟩
  have linked : Inference.Linked known 1 3 :=
    .trans _ 2 _ (.rel _ _ ⟨_, _, first, rfl, rfl⟩) (.rel _ _ ⟨_, _, second, rfl, rfl⟩)
  exact ⟨(kept known found).equalities ⟨1, "a"⟩ ⟨3, "c"⟩ (by decide) (by decide) (by decide) linked,
    closed⟩

open EffectivePredicates in
/-- A join that keeps the rows of one side, padded or not, has the facts of that side, and a
semi-join has no facts from the side it hides. -/
theorem Plan.effectivePredicates_ignore_hidden {infer : Inference}
    (oracle : infer = .nothing ∨ infer = .equality) (condition : Option Expr) (l r : Plan) :
    (∀ kind ∈ [JoinKind.leftOuter, .leftAnti],
        (Plan.join ⟨kind, condition⟩ l r).effectivePredicates infer =
          l.effectivePredicates infer) ∧
      (∀ kind ∈ [JoinKind.rightOuter, .rightAnti],
        (Plan.join ⟨kind, condition⟩ l r).effectivePredicates infer =
          r.effectivePredicates infer) ∧
      (∀ r', (Plan.join ⟨.leftSemi, condition⟩ l r).effectivePredicates infer =
        (Plan.join ⟨.leftSemi, condition⟩ l r').effectivePredicates infer) ∧
      ∀ l', (Plan.join ⟨.rightSemi, condition⟩ l r).effectivePredicates infer =
        (Plan.join ⟨.rightSemi, condition⟩ l' r).effectivePredicates infer := by
  have closed (p : Plan) : (infer (p.effectivePredicates infer)).toList = [] := by
    rcases oracle with rfl | rfl
    · rfl
    · exact closed_effectivePredicates p
  simp only [List.forall_mem_cons, List.not_mem_nil, false_imp_iff, implies_true, and_true,
    effectivePredicates_join]
  refine ⟨⟨?_, ?_⟩, ⟨?_, ?_⟩, fun r' => ?_, fun l' => ?_⟩
  · exact available_effectivePredicates closed (subset_output_left rfl l r)
  · exact available_effectivePredicates closed (subset_output_left rfl l r)
  · exact available_effectivePredicates closed (subset_output_right rfl l r)
  · exact available_effectivePredicates closed (subset_output_right rfl l r)
  · exact available_congr rfl _
  · exact available_congr rfl _

open Inference.Sample in
/-- Whatever relation is joined, with a column in common, and with a condition on both sides. -/
theorem Plan.effectivePredicates_ignore_hidden_shared :
    0 < (ends.effectivePredicates .equality).size ∧
      ∀ relation, (Plan.join ⟨.leftOuter, some (.equality ⟨3, "c"⟩ ⟨4, "d"⟩)⟩ ends
        (.get ⟨relation, [⟨3, "c"⟩, ⟨4, "d"⟩]⟩)).effectivePredicates .equality =
          ends.effectivePredicates .equality := by
  refine ⟨by decide +kernel, fun relation => ?_⟩
  exact (effectivePredicates_ignore_hidden (Or.inr rfl) _ ends _).1 .leftOuter
    (List.mem_cons_self ..)

end QueryPlan

import QueryPlan.Proofs.Analysis.Closure
import QueryPlan.Proofs.Expr.Terms

/-!
What restating leaves of the facts about an input. All effective predicates are terms, so unless a
column takes the place of their conjunction each is restated by itself. Main statements: a predicate
on columns that a projection passes through is reported, restated, for the projection; and for an
aggregation that computes all its columns exactly those predicates without columns are reported that
were known of its input and in which nothing is restated.
-/
namespace QueryPlan

/-- Among terms nothing but terms that read columns is found. -/
def Inference.FindsTerms (infer : Inference) : Prop :=
  ∀ predicates, (∀ p ∈ predicates.toList, p.isTerm = true) →
    ∀ q ∈ (infer predicates).toList, q.isTerm = true ∧ ¬ q.ColumnFree

namespace Inference
variable {predicates : Conjuncts} {infer : Inference}

theorem propagated_of_mem {q : Expr} (mem : q ∈ (equality predicates).toList) :
    Propagated predicates q := by
  rcases SortedSet.mem_of_mem_extend mem with old | found
  · cases old
  · rcases List.mem_append.1 found with missing | restated
    · exact propagated_of_missing missing
    · obtain ⟨restated, new⟩ := List.mem_filter.1 restated
      obtain ⟨p, given, mem⟩ := List.mem_flatMap.1 restated
      exact propagated_of_restated given mem ((Bool.not_eq_true' _).mp new)

theorem findsTerms_nothing : nothing.FindsTerms := by
  intro predicates _ q mem
  cases mem

theorem findsTerms_equality : equality.FindsTerms := by
  intro predicates terms q mem
  cases propagated_of_mem mem with
  | equality =>
    refine ⟨rfl, fun free => ?_⟩
    cases (within_equality_iff.1 (free.within [])).1
  | restatement given _ _ _ subqueries just =>
    constructor
    · obtain ⟨p, known, equal⟩ := contains_iff_beq.1 given
      rw [Expr.isTerm_rename, Expr.isTerm_eq_of_alike equal, terms p known]
    · exact (Expr.readsJust_iff.1 (Expr.readsJust_rename subqueries just)).2

theorem findsTerms_of_oracle (oracle : infer = .nothing ∨ infer = .equality) :
    infer.FindsTerms := by
  rcases oracle with rfl | rfl
  · exact findsTerms_nothing
  · exact findsTerms_equality

end Inference

namespace EffectivePredicates
variable {infer : Inference} {predicates : Conjuncts} {producers : Substitution} {q : Expr}

theorem isTerm_available (finds : infer.FindsTerms)
    (terms : ∀ p ∈ predicates.toList, p.isTerm = true) {node : Plan}
    (mem : q ∈ (available infer node predicates).toList) : q.isTerm = true := by
  rcases (mem_available mem).1 with given | inferred
  · exact terms q given
  · exact (finds predicates terms q inferred).1

theorem isTerm_restate (mem : q ∈ (restate predicates producers).toList) : q.isTerm = true :=
  Expr.isTerm_of_mem_conjuncts (SortedSet.mem_of_mem_ofList mem)

theorem isTerm_of_mem_flatMap {es : List Expr} (mem : q ∈ es.flatMap Expr.conjuncts) :
    q.isTerm = true := by
  obtain ⟨e, _, term⟩ := List.mem_flatMap.1 mem
  exact Expr.isTerm_of_mem_conjuncts term

theorem isTerm_joinFacts {join : Join} {left right : Conjuncts}
    (first : ∀ p ∈ left.toList, p.isTerm = true) (second : ∀ p ∈ right.toList, p.isTerm = true)
    (known : joinFacts join left right = some predicates) (mem : q ∈ predicates.toList) :
    q.isTerm = true := by
  rw [joinFacts] at known
  cases kind : join.kind <;> simp only [kind] at known <;> cases known
  case inner | cross =>
    rcases List.mem_append.1 (SortedSet.mem_of_mem_ofList mem) with side | term
    · exact (List.mem_append.1 side).elim (first q) (second q)
    · exact isTerm_of_mem_flatMap term
  case leftSemi =>
    exact (List.mem_append.1 (SortedSet.mem_of_mem_ofList mem)).elim (first q)
      isTerm_of_mem_flatMap
  case rightSemi =>
    exact (List.mem_append.1 (SortedSet.mem_of_mem_ofList mem)).elim (second q)
      isTerm_of_mem_flatMap
  case leftOuter | leftAnti => exact first q mem
  case rightOuter | rightAnti => exact second q mem

theorem isTerm_of_known (finds : infer.FindsTerms) {p : Plan}
    (mem : q ∈ (p.effectivePredicates infer).toList) : q.isTerm = true := by
  induction p generalizing q with
  | get =>
    rw [effectivePredicates_eq] at mem
    cases mem
  | unary operator p ih =>
    cases operator with
    | having | qualify | limit =>
      rw [effectivePredicates_eq] at mem
      cases mem
    | filter conditions =>
      rw [effectivePredicates_filter] at mem
      refine isTerm_available finds (fun fact known => ?_) mem
      rcases SortedSet.mem_of_mem_extend known with own | below
      · exact isTerm_of_mem_flatMap (List.mem_of_mem_filter (SortedSet.mem_of_mem_ofList own))
      · exact ih below
    | project projections distinct =>
      rw [effectivePredicates_project] at mem
      exact isTerm_available finds (fun _ => isTerm_restate) mem
    | aggregate groupKey outputs =>
      rw [effectivePredicates_aggregate] at mem
      exact isTerm_available finds (fun _ => isTerm_restate) mem
  | join join l r left right =>
    rw [effectivePredicates_join] at mem
    split at mem
    · rename_i known
      exact isTerm_available finds
        (fun _ => isTerm_joinFacts (fun _ => left) (fun _ => right) known) mem
    · cases mem

theorem restate_eq (columns : producers.PutsColumns)
    (terms : ∀ p ∈ predicates.toList, p.isTerm = true)
    (apart : producers.lookup (.andAll predicates.toList) = none) :
    restate predicates producers = .ofList (predicates.toList.map (·.substitute producers)) := by
  rw [restate, Expr.conjuncts_substitute_andAll columns terms apart]

theorem restate_eq_of_lookup {s : Slot}
    (whole : producers.lookup (.andAll predicates.toList) = some (.slot s)) :
    restate predicates producers = .ofList [.slot s] := by
  rw [restate, Expr.substitute_eq, whole]
  rfl

theorem putsColumns_project (projections : List NamedExpr) :
    (projectProducers projections).PutsColumns := by
  intro pair mem
  obtain ⟨a, _, rfl⟩ := List.mem_map.1 mem
  exact ⟨a.slot, rfl⟩

theorem putsColumns_aggregate (outputs : List NamedExpr) :
    (aggregateProducers outputs).PutsColumns := by
  intro pair mem
  obtain ⟨o, _, rfl⟩ := List.mem_map.1 (List.mem_reverse.1 mem)
  exact ⟨o.slot, rfl⟩

theorem contains_available {node : Plan} {e : Expr} (known : predicates.contains e = true)
    (within : e.Within node.output) : (available infer node predicates).contains e = true := by
  refine Inference.contains_restrict_iff.2 ⟨?_, within⟩
  rw [SortedSet.contains_union, known, Bool.true_or]

section
variable {p : Plan} {projections : List NamedExpr} {distinct : Bool}

theorem within_output_of_producer {pair : Expr × Expr} (mem : pair ∈ projectProducers projections) :
    pair.2.Within (projections.map NamedExpr.slot) := by
  obtain ⟨a, computed, rfl⟩ := List.mem_map.1 mem
  obtain ⟨o, there, shape⟩ := List.mem_filterMap.1 computed
  cases o with
  | column => cases shape
  | aliased b =>
    cases shape
    exact Expr.within_slot.2 (List.mem_map_of_mem (List.mem_map_of_mem there))

theorem within_output_of_passed {e : Expr} (within : e.Within (passed projections)) :
    e.Within (projections.map NamedExpr.slot) := by
  refine within.mono fun id mem => ?_
  obtain ⟨s, there, rfl⟩ := List.mem_map.1 mem
  obtain ⟨o, there, shape⟩ := List.mem_filterMap.1 there
  cases o with
  | column =>
    cases shape
    exact List.mem_map_of_mem (List.mem_map_of_mem there)
  | aliased => cases shape

theorem contains_project {e : Expr}
    (known : (restate (p.effectivePredicates infer) (projectProducers projections)).contains e =
      true)
    (within : e.Within (projections.map NamedExpr.slot)) :
    ((p.project projections distinct).effectivePredicates infer).contains e = true := by
  rw [effectivePredicates_project]
  exact contains_available known within

theorem contains_project_of_passed (finds : infer.FindsTerms)
    (apart : (projectProducers projections).lookup
      (.andAll (p.effectivePredicates infer).toList) = none) {fact : Expr}
    (known : fact ∈ (p.effectivePredicates infer).toList)
    (within : fact.Within (passed projections)) :
    ((p.project projections distinct).effectivePredicates infer).contains
      (fact.substitute (projectProducers projections)) = true := by
  refine contains_project ?_ (Expr.within_substitute (within_output_of_passed within)
    fun _ => within_output_of_producer)
  rw [restate_eq (putsColumns_project projections) (fun _ => isTerm_of_known finds) apart]
  exact SortedSet.contains_iff.2 (SortedSet.exists_mem_ofList (List.mem_map_of_mem known))

end

section
variable {p : Plan} {groupKey : List Expr} {outputs : List NamedExpr}

/-- A computed column takes the place of all the facts together or of a part of this one. -/
def Absorbed (producers : Substitution) (facts : Conjuncts) (fact : Expr) : Prop :=
  producers.lookup (.andAll facts.toList) ≠ none ∨ ¬ fact.Avoids producers

instance (producers : Substitution) (facts : Conjuncts) (fact : Expr) :
    Decidable (Absorbed producers facts fact) :=
  inferInstanceAs (Decidable (_ ∨ _))

theorem known_of_columnFree (finds : infer.FindsTerms)
    (mem : q ∈ ((p.aggregate groupKey outputs).effectivePredicates infer).toList)
    (free : q.ColumnFree) :
    q ∈ (p.effectivePredicates infer).toList ∧
      ¬ Absorbed (aggregateProducers outputs) (p.effectivePredicates infer) q := by
  rw [effectivePredicates_aggregate] at mem
  have terms : ∀ fact ∈ (restate (p.effectivePredicates infer)
      (aggregateProducers outputs)).toList, fact.isTerm = true := fun _ => isTerm_restate
  have restated : q ∈ (restate (p.effectivePredicates infer) (aggregateProducers outputs)).toList :=
    (mem_available mem).1.resolve_right fun found => (finds _ terms q found).2 free
  have columns := putsColumns_aggregate outputs
  cases whole : (aggregateProducers outputs).lookup
      (.andAll (p.effectivePredicates infer).toList) with
  | some column =>
    -- A column in the place of all facts is the only predicate left.
    obtain ⟨s, rfl⟩ := columns.exists_slot whole
    rw [restate_eq_of_lookup whole] at restated
    rw [List.mem_singleton.1 (SortedSet.mem_of_mem_ofList restated)] at free
    exact (Expr.not_columnFree_slot s free).elim
  | none =>
    rw [restate_eq columns (fun _ => isTerm_of_known finds) whole] at restated
    obtain ⟨fact, known, rfl⟩ := List.mem_map.1 (SortedSet.mem_of_mem_ofList restated)
    have avoids := Expr.avoids_of_columnFree columns free
    rw [avoids.substitute]
    exact ⟨known, not_or.2 ⟨not_not.2 whole, not_not.2 avoids⟩⟩

theorem contains_aggregate_of_columnFree (finds : infer.FindsTerms) {fact : Expr}
    (known : fact ∈ (p.effectivePredicates infer).toList) (free : fact.ColumnFree)
    (kept : ¬ Absorbed (aggregateProducers outputs) (p.effectivePredicates infer) fact) :
    ((p.aggregate groupKey outputs).effectivePredicates infer).contains fact = true := by
  obtain ⟨whole, avoids⟩ := not_or.1 kept
  rw [not_not] at whole avoids
  rw [effectivePredicates_aggregate]
  refine contains_available ?_ (free.within _)
  rw [restate_eq (putsColumns_aggregate outputs) (fun _ => isTerm_of_known finds) whole]
  refine SortedSet.contains_iff.2 (SortedSet.exists_mem_ofList ?_)
  exact List.mem_map.2 ⟨fact, known, avoids.substitute⟩

end
end EffectivePredicates

def Expr.CanFail (e : Expr) : Prop := ∃ (I : Interpretation) (row : Row), ¬ I.Holds row e

def Interpretation.blank : Interpretation where
  unary _ _ := .null
  binary _ _ _ := .null
  variadic f args :=
    match f with
    | .and => .boolean (args.all (· = .boolean true))
    | _ => .null
  aggregate _ _ _ := .null
  window _ _ _ _ := .null
  subquery _ _ _ _ := .null
  and_true args := by simp

theorem Expr.canFail_of_isTerm {e : Expr} (term : e.isTerm = true) : e.CanFail := by
  refine ⟨.blank, fun _ => .null, fun holds => ?_⟩
  cases e with
  | literal d =>
    cases holds
    cases term
  | variadic f es =>
    cases f with
    | and => cases term
    | _ => cases holds
  | _ => cases holds

namespace Plan
open EffectivePredicates
variable {infer : Inference}

/-- Where a column computes the conjunction of all that is known of the input, it is reported.
Elsewhere each predicate that reads only columns passed through is reported, with computed columns
in the place of what they compute. -/
theorem effectivePredicates_passed (oracle : infer = .nothing ∨ infer = .equality) (p : Plan)
    (projections : List NamedExpr) (distinct : Bool) :
    let below := p.effectivePredicates infer
    let above := (p.project projections distinct).effectivePredicates infer
    let producers := projectProducers projections
    match producers.lookup (.andAll below.toList) with
    | some column => above.contains column = true
    | none =>
      ∀ fact ∈ below.toList, fact.Within (passed projections) →
        above.contains (fact.substitute producers) = true ∧
          (fact.Avoids producers → above.contains fact = true) := by
  intro below above producers
  have finds := Inference.findsTerms_of_oracle oracle
  split
  · rename_i column whole
    obtain ⟨s, rfl⟩ := (putsColumns_project projections).exists_slot whole
    obtain ⟨key, mem, _⟩ := mem_of_lookup whole
    refine contains_project ?_ (within_output_of_producer mem)
    rw [restate_eq_of_lookup whole]
    exact SortedSet.contains_of_mem (List.mem_singleton_self _)
  · rename_i apart
    intro fact known within
    have restated : above.contains (fact.substitute producers) = true :=
      contains_project_of_passed finds apart known within
    refine ⟨restated, fun avoids => ?_⟩
    rwa [avoids.substitute] at restated

end Plan

namespace SampleFacts

def compared (f : BinaryFunc) (bound : Int64) : Expr :=
  .binary f (.slot flag) (.literal (.integer bound))

def beside (e : Expr) : List NamedExpr := [.column flag, .aliased ⟨other, e⟩]

def bounds : Conjuncts := .ofList [compared .gt 0, compared .lt 5]

def bounded : Plan := .filter (.get ⟨"t", [flag]⟩) bounds

/-- The predicate is known, and what it reads is passed through, but it is not reported. -/
def Lost (infer : Inference) (p : Plan) (projections : List NamedExpr) (fact : Expr) : Prop :=
  (p.effectivePredicates infer).contains fact = true ∧ fact.Within (passed projections) ∧
    ((p.project projections false).effectivePredicates infer).contains fact = false

instance (infer : Inference) (p : Plan) (projections : List NamedExpr) (fact : Expr) :
    Decidable (Lost infer p projections fact) :=
  inferInstanceAs (Decidable (_ ∧ _ ∧ _))

end SampleFacts

namespace Plan
open EffectivePredicates SampleFacts
variable {infer : Inference}

theorem effectivePredicates_passed_beside_constant :
    (((known (.slot flag)).project (beside falsity) false).effectivePredicates .equality).contains
      (.slot flag) = true := by
  have apart : (projectProducers (beside falsity)).lookup
      (.andAll ((known (.slot flag)).effectivePredicates .equality).toList) = none := by
    decide +kernel
  have mem : Expr.slot flag ∈ ((known (.slot flag)).effectivePredicates .equality).toList :=
    List.mem_singleton_self _
  have passes := effectivePredicates_passed (Or.inr rfl) (known (.slot flag)) (beside falsity) false
  simp only [apart] at passes
  exact (passes _ mem (by decide)).2 (by decide)

/-- Beside a copy of the column, a constant that the predicate compares with, and the conjunction of
the predicates. -/
theorem passed_predicates_lost :
    (Lost .nothing (known (.slot flag)) (beside (.slot flag)) (.slot flag) ∧
        Lost .equality (known (.slot flag)) (beside (.slot flag)) (.slot flag)) ∧
      (Lost .nothing (known (compared .eq 1)) (beside (.literal (.integer 1))) (compared .eq 1) ∧
        Lost .equality (known (compared .eq 1)) (beside (.literal (.integer 1)))
          (compared .eq 1)) ∧
      ∀ fact ∈ bounds.toList,
        Lost .nothing bounded (beside (.andAll bounds.toList)) fact ∧
          Lost .equality bounded (beside (.andAll bounds.toList)) fact := by
  decide +kernel

/-- Nothing that reads no column and can fail is reported for an aggregation exactly when all that
reads no column and is known of its input is absorbed. -/
theorem aggregation_constants_iff (oracle : infer = .nothing ∨ infer = .equality) (p : Plan)
    (groupKey : List Expr) (outputs : List NamedExpr) :
    (∀ q ∈ ((p.aggregate groupKey outputs).effectivePredicates infer).toList,
        q.ColumnFree → ¬ q.CanFail) ↔
      ∀ fact ∈ (p.effectivePredicates infer).toList, fact.ColumnFree →
        Absorbed (aggregateProducers outputs) (p.effectivePredicates infer) fact := by
  have finds := Inference.findsTerms_of_oracle oracle
  constructor
  · intro reliable fact known free
    by_contra kept
    have reported : ((p.aggregate groupKey outputs).effectivePredicates infer).contains fact =
        true := contains_aggregate_of_columnFree finds known free kept
    obtain ⟨q, mem, equal⟩ := Inference.contains_iff_beq.1 reported
    have term : q.isTerm = true := by
      rw [← Expr.isTerm_eq_of_alike equal]
      exact isTerm_of_known finds known
    exact reliable q mem ((Expr.readsOnly_iff_of_beq equal).1 free) (Expr.canFail_of_isTerm term)
  · intro absorbed q mem free
    obtain ⟨known, kept⟩ := known_of_columnFree finds mem free
    exact absurd (absorbed q known free) kept

end Plan

namespace SampleFacts

def calls : Expr := .aggregate .count (.literal (.integer 1)) false

def counted (fact : Expr) : Plan := (known fact).aggregate [] [.aliased ⟨other, calls⟩]

end SampleFacts

namespace Plan
open SampleFacts

theorem aggregation_constants_absorbed :
    Expr.slot other ∈ ((counted calls).effectivePredicates .equality).toList ∧
      ∀ q ∈ ((counted calls).effectivePredicates .equality).toList,
        q.ColumnFree → ¬ q.CanFail := by
  refine ⟨List.mem_singleton_self _, ?_⟩
  exact (aggregation_constants_iff (Or.inr rfl) (known calls) [] [.aliased ⟨other, calls⟩]).2
    (by decide +kernel)

/-- The count of no rows is a row, on which nothing makes `false` true. -/
theorem false_reported_of_count :
    falsity ∈ ((counted falsity).effectivePredicates .nothing).toList ∧
      falsity ∈ ((counted falsity).effectivePredicates .equality).toList ∧
      falsity.ColumnFree ∧ ∀ (I : Interpretation) (row : Row), ¬ I.Holds row falsity := by
  refine ⟨List.mem_singleton_self _, List.mem_singleton_self _, by decide, fun I row holds => ?_⟩
  cases holds

end Plan
end QueryPlan

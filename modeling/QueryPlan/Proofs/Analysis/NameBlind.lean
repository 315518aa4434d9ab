import QueryPlan.Proofs.Analysis.Propagation
import QueryPlan.Proofs.Analysis.Soundness
import QueryPlan.Proofs.Plan.NameBlind

namespace QueryPlan

def Inference.NameBlind (infer : Inference) : Prop :=
  ∀ predicates predicates', Alike predicates predicates' →
    Alike (infer predicates) (infer predicates')

theorem Inference.nameBlind_nothing : NameBlind .nothing := fun _ _ _ => BEq.rfl

theorem Inference.nameBlind_equality : NameBlind .equality := by
  intro predicates predicates' same
  have stated (e : Expr) : predicates.contains e = predicates'.contains e :=
    SortedSet.contains_eq_of_alike same BEq.rfl
  have sides : SameUpToSides predicates predicates' :=
    ⟨fun pair => by rw [states, states, stated, stated], fun e _ => stated e⟩
  exact sides.equality_beq

namespace EffectivePredicates

abbrev SameProducers : Substitution → Substitution → Prop :=
  List.Forall₂ fun x y => Alike x.1 y.1 ∧ Alike x.2 y.2

section
variable {columns columns' : List NamedExpr} {predicates predicates' : Conjuncts}

theorem projectProducers_together (same : List.Forall₂ Alike columns columns') :
    SameProducers (projectProducers columns) (projectProducers columns') :=
  map_of_forall₂ (aliases_alike same) fun _ _ binding =>
    ⟨Alias.expr_alike binding, Expr.slot_alike (Alias.slot_alike binding)⟩

theorem aggregateProducers_together (same : List.Forall₂ Alike columns columns') :
    SameProducers (aggregateProducers columns) (aggregateProducers columns') := by
  have computed := filter_of_forall₂ same fun _ _ output =>
    Expr.containsAggregate_eq_of_beq (NamedExpr.expr_alike output)
  exact List.rel_reverse (map_of_forall₂ computed fun _ _ output =>
    ⟨NamedExpr.expr_alike output, Expr.slot_alike (NamedExpr.slot_alike output)⟩)

theorem restate_alike {producers producers' : Substitution} (same : Alike predicates predicates')
    (each : SameProducers producers producers') :
    Alike (restate predicates producers) (restate predicates' producers') := by
  have whole := Expr.andAll_alike (SortedSet.alike_iff.1 same)
  exact SortedSet.ofList_alike (Expr.conjuncts_alike (Expr.substitute_alike each whole))

theorem filterFacts_alike (same : Alike predicates predicates') :
    List.Forall₂ Alike (filterFacts predicates) (filterFacts predicates') :=
  filter_of_forall₂
    (flatMap_of_forall₂ (SortedSet.alike_iff.1 same) fun _ _ => Expr.conjuncts_alike)
    fun _ _ term => by rw [Expr.isCorrelatedSubquery_eq_of_alike term]

theorem joinFacts_together {j j' : Join} (how : Alike j j') {left left' right right' : Conjuncts}
    (lefts : Alike left left') (rights : Alike right right') :
    Option.Rel Alike (joinFacts j left right) (joinFacts j' left' right') := by
  obtain ⟨kinds, conditions⟩ := Bool.and_eq_true_iff.1 how
  have terms := flatMap_of_forall₂ (toList_of_rel (alike_option_iff.1 conditions))
    fun _ _ => Expr.conjuncts_alike
  have lefts' := SortedSet.alike_iff.1 lefts
  have rights' := SortedSet.alike_iff.1 rights
  obtain ⟨kind, condition⟩ := j
  obtain ⟨kind', condition'⟩ := j'
  cases eq_of_beq kinds
  cases kind with
  | inner | cross =>
    exact .some (SortedSet.ofList_alike (List.rel_append (List.rel_append lefts' rights') terms))
  | leftSemi => exact .some (SortedSet.ofList_alike (List.rel_append lefts' terms))
  | rightSemi => exact .some (SortedSet.ofList_alike (List.rel_append rights' terms))
  | leftOuter | leftAnti => exact .some lefts
  | rightOuter | rightAnti => exact .some rights
  | fullOuter | nullAwareLeftAnti => exact .none

end

section
variable {infer : Inference} {p q : Plan}

theorem available_alike (blind : infer.NameBlind) (similar : Plan.Similar p q)
    {predicates predicates' : Conjuncts} (same : Alike predicates predicates') :
    Alike (available infer p predicates) (available infer q predicates') := by
  have all := SortedSet.extend_alike same (SortedSet.alike_iff.1 (blind _ _ same))
  refine SortedSet.filter_alike all fun a b equal => ?_
  exact SortedSet.isSubset_eq_of_alike (Expr.inputSlots_alike equal) (Plan.outputSet_alike similar)

theorem facts_together (similar : Plan.Similar p q) {inputs inputs' : List Conjuncts}
    (below : List.Forall₂ Alike inputs inputs') :
    Option.Rel Alike (facts p inputs) (facts q inputs') := by
  cases similar with
  | get => exact .none
  | unary operator =>
    match below with
    | .nil | .cons _ (.cons _ _) => cases operator <;> exact .none
    | .cons only .nil =>
      cases operator with
      | having | qualify | limit => exact .none
      | filter predicates =>
        have stated := SortedSet.ofList_alike (filterFacts_alike predicates)
        exact .some (SortedSet.extend_alike stated (SortedSet.alike_iff.1 only))
      | project columns =>
        exact .some (restate_alike only (projectProducers_together (alike_list_iff.1 columns)))
      | aggregate keys outputs =>
        exact .some (restate_alike only (aggregateProducers_together (alike_list_iff.1 outputs)))
  | join how =>
    match below with
    | .nil | .cons _ .nil | .cons _ (.cons _ (.cons _ _)) => exact .none
    | .cons left (.cons right .nil) => exact joinFacts_together how left right

theorem effectivePredicates_alike (blind : infer.NameBlind) (similar : Plan.Similar p q) :
    Alike (p.effectivePredicates infer) (q.effectivePredicates infer) := by
  have node {p q : Plan} (similar : Plan.Similar p q)
      (below : List.Forall₂ Alike (p.children.map (Plan.effectivePredicates infer))
        (q.children.map (Plan.effectivePredicates infer))) :
      Alike (p.effectivePredicates infer) (q.effectivePredicates infer) := by
    rw [effectivePredicates_eq, effectivePredicates_eq]
    rcases cases_of_rel (facts_together similar below) with
      ⟨none, none'⟩ | ⟨_, _, known, known', same⟩
    · rw [none, none']
      exact BEq.rfl
    · rw [known, known']
      exact available_alike blind similar same
  induction similar with
  | get relation => exact node (.get relation) .nil
  | unary operator input ih => exact node (.unary operator input) (.cons ih .nil)
  | join how left right ihl ihr =>
    exact node (.join how left right) (.cons ihl (.cons ihr .nil))

theorem results_alike (blind : infer.NameBlind) (similar : Plan.Similar p q) :
    List.Forall₂ Alike (Derived.of (analysis infer) p).results.toList
      (Derived.of (analysis infer) q).results.toList := by
  rw [Derived.of_eq, Derived.of_eq, ← effectivePredicates_derive]
  exact map_of_forall₂ (Plan.postorder_similar similar) fun _ _ => effectivePredicates_alike blind

end
end EffectivePredicates
end QueryPlan

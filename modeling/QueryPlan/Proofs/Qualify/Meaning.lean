import QueryPlan.Proofs.Expr.Expansion
import QueryPlan.Proofs.Qualify.GroupScope

/-!
Resolving over an aggregation keeps what predicates mean. Main statement: with every column that an
alias of the completed aggregation computes put back to what computes it, each resolved predicate is
the one it came from, and so are the two sets. A column never stands for an expression that reads
columns of aliases, so putting back once is enough.
-/
namespace QueryPlan
namespace Qualify

/-- No two aliases share an identifier, and those that are not `known` start from `first`. -/
structure Apart (known : List SlotId) (first : SlotId) (aliases : List Alias) : Prop where
  distinct : (aliasIds aliases).Nodup
  fresh : ∀ id ∈ aliasIds aliases, id ∈ known ∨ first ≤ id

structure Numbered (known : List SlotId) (first : SlotId) (r : Resolution) : Prop where
  apart : Apart known first (aliasesOf r.outputs)
  plain : ∀ a ∈ aliasesOf r.outputs, a.expr.ReadsOnly (· ∉ known)
  below : ∀ id ∈ aliasIds (aliasesOf r.outputs), id < r.supply.next
  start : first ≤ r.supply.next

/-- Reads what was there before any alias from `first` on, and no known one in aggregate calls. -/
structure Admitted (known : List SlotId) (first : SlotId) (e : Expr) : Prop where
  below : e.ReadsOnly (· < first)
  calls : ∀ call ∈ e.postorder, call.isAggregate = true → call.ReadsOnly (· ∉ known)

/-- Under all aliases that go beyond those of the resolution, `x` stands for `e`. -/
def StandsFor (known : List SlotId) (first : SlotId) (r : Resolution) (e x : Expr) : Prop :=
  ∀ aliases, aliasesOf r.outputs ⊆ aliases → Apart known first aliases →
    (x.expand aliases == e.expand aliases) = true

section
variable {known : List SlotId} {first : SlotId} {groupKey : List Expr} {r t : Resolution}
  {e x : Expr}

theorem Admitted.of_child {c : Expr} (admitted : Admitted known first e) (child : c ∈ e.children) :
    Admitted known first c where
  below := admitted.below.of_part (Expr.mem_postorder_of_child child (Expr.mem_postorder_self c))
  calls call sub := admitted.calls call (Expr.mem_postorder_of_child child sub)

theorem Admitted.plain (admitted : Admitted known first e)
    (keys : ∀ k ∈ groupKey, k.ReadsOnly (· ∉ known))
    (needed : (e.isAggregate || groupKey.contains e) = true) : e.ReadsOnly (· ∉ known) := by
  rcases Bool.or_eq_true_iff.1 needed with call | key
  · exact admitted.calls e (Expr.mem_postorder_self e) call
  · obtain ⟨k, mem, same⟩ := List.contains_iff_exists_mem_beq.1 key
    exact (Expr.readsOnly_iff_of_beq same).2 (keys k mem)

theorem standsFor_column {a : Alias} (mem : a ∈ aliasesOf t.outputs)
    (computes : (a.expr == e) = true) (below : e.ReadsOnly (· < first))
    (plain : e.ReadsOnly (· ∉ known)) : StandsFor known first t e (.slot a.slot) := by
  intro aliases all apart
  refine Expr.expand_column_beq apart.distinct (all mem) computes fun s read computed => ?_
  rcases apart.fresh s.id computed with old | new
  · exact plain s read old
  · exact Nat.not_le_of_lt (below s read) new

theorem Numbered.pass (numbered : Numbered known first r) (s : Slot) :
    Numbered known first ⟨r.outputs ++ [.column s], r.supply⟩ := by
  have same : aliasesOf (r.outputs ++ [.column s]) = aliasesOf r.outputs := by
    simp [aliasesOf, NamedExpr.alias?]
  obtain ⟨apart, plain, below, start⟩ := numbered
  constructor
  · rwa [same]
  · rwa [same]
  · rwa [same]
  · exact start

theorem Numbered.add (numbered : Numbered known first r) (plain : e.ReadsOnly (· ∉ known)) :
    Numbered known first ⟨r.outputs ++ [.aliased (Alias.freshUnnamed e r.supply).1],
      (Alias.freshUnnamed e r.supply).2⟩ := by
  have aliases : aliasesOf (r.outputs ++ [.aliased (Alias.freshUnnamed e r.supply).1]) =
      aliasesOf r.outputs ++ [(Alias.freshUnnamed e r.supply).1] := by
    simp [aliasesOf, NamedExpr.alias?]
  have ids : aliasIds (aliasesOf (r.outputs ++ [.aliased (Alias.freshUnnamed e r.supply).1])) =
      aliasIds (aliasesOf r.outputs) ++ [r.supply.next] := by
    rw [aliases, aliasIds, List.map_append]
    rfl
  constructor
  · constructor
    · rw [ids, List.nodup_append]
      refine ⟨numbered.apart.distinct, List.pairwise_singleton _ _, fun id old new mem same => ?_⟩
      rw [same, List.mem_singleton.1 mem] at old
      exact Nat.lt_irrefl _ (numbered.below _ old)
    · intro id mem
      rw [ids, List.mem_append, List.mem_singleton] at mem
      rcases mem with old | rfl
      · exact numbered.apart.fresh id old
      · exact Or.inr numbered.start
  · intro a mem
    rw [aliases, List.mem_append, List.mem_singleton] at mem
    rcases mem with old | rfl
    · exact numbered.plain a old
    · exact plain
  · intro id mem
    rw [ids, List.mem_append, List.mem_singleton] at mem
    rcases mem with old | rfl
    · exact Nat.lt_succ_of_lt (numbered.below id old)
    · exact Nat.lt_succ_self _
  · exact Nat.le_succ_of_le numbered.start

theorem Resolves.numbered (step : Resolves groupKey r e x t)
    (keys : ∀ k ∈ groupKey, k.ReadsOnly (· ∉ known)) (admitted : Admitted known first e)
    (numbered : Numbered known first r) :
    Numbered known first t ∧ StandsFor known first t e x := by
  cases step with
  | keep => exact ⟨numbered, fun _ _ _ => BEq.rfl⟩
  | pass => exact ⟨numbered.pass _, fun _ _ _ => BEq.rfl⟩
  | refer other known =>
    obtain ⟨mem, computes⟩ := aliasFor?_some known
    have plain := (Expr.readsOnly_iff_of_beq computes).1 (numbered.plain _ mem)
    exact ⟨numbered, standsFor_column mem computes admitted.below plain⟩
  | add other unknown needed =>
    have plain := admitted.plain keys needed
    refine ⟨numbered.add plain, standsFor_column ?_ BEq.rfl admitted.below plain⟩
    exact mem_aliasesOf.2 (List.mem_append_right _ (List.mem_singleton_self _))

theorem standsFor_resolve {predicates : Conjuncts}
    (keys : ∀ k ∈ groupKey, k.ReadsOnly (· ∉ known))
    (admitted : ∀ p ∈ predicates.toList, Admitted known first p)
    (numbered : Numbered known first r) :
    List.Forall₂ (fun p q =>
        (q.expand (aliasesOf (resolve groupKey predicates r).2.outputs) ==
          p.expand (aliasesOf (resolve groupKey predicates r).2.outputs)) = true)
      predicates.toList (Expr.replaceAll (resolveStep groupKey) predicates.toList r).1 := by
  have kept : Numbered known first (resolve groupKey predicates r).2 ∧
      aliasesOf r.outputs ⊆ aliasesOf (resolve groupKey predicates r).2.outputs ∧
      List.Forall₂ (StandsFor known first (resolve groupKey predicates r).2) predicates.toList
        (Expr.replaceAll (resolveStep groupKey) predicates.toList r).1 := by
    refine Expr.replaceAll_keeps (A := Admitted known first)
      (R := fun s t : Resolution => aliasesOf s.outputs ⊆ aliasesOf t.outputs)
      ?_ ?_ ?_ ?_ ?_ ?_ numbered admitted
    · exact fun s => List.Subset.refl _
    · exact fun s t u first second => List.Subset.trans first second
    · exact fun s t e x grown same aliases all => same aliases (List.Subset.trans grown all)
    · intro s e x t found numbered admitted
      have step := resolves_of_resolveStep found
      obtain ⟨still, same⟩ := step.numbered keys admitted numbered
      exact ⟨still, step.grows.filterMap _ |>.subset, same⟩
    · exact fun s e _ _ admitted c child => admitted.of_child child
    · intro s e cs t _ _ _ parts aliases all apart
      exact Expr.expand_withChildren_beq (parts.imp fun _ _ same => same aliases all apart)
  -- Later predicates add aliases; those there are in the end go beyond those at each step.
  exact kept.2.2.imp fun p q same => same _ (List.Subset.refl _) kept.1.apart

end

section
variable {input fragment : Plan} {groupKey : List Expr} {outputs : List NamedExpr}
  {predicates : Conjuncts} {conditions : Option Conjuncts} {supply next : Supply}

theorem expanded_ofList {aliases : List Alias} {results : List Expr}
    (each : List.Forall₂ (fun p q => (q.expand aliases == p.expand aliases) = true)
      predicates.toList results) :
    (SortedSet.ofList ((SortedSet.ofList results).toList.map (Expr.expand aliases)) ==
      SortedSet.ofList (predicates.toList.map (Expr.expand aliases))) = true := by
  have pairs : List.Forall₂ (fun e q => (q.expand aliases == e) = true)
      (predicates.toList.map (Expr.expand aliases)) results := by
    rwa [List.forall₂_map_left_iff]
  refine SortedSet.beq_of_contains fun x => ?_
  rw [Bool.eq_iff_iff, Expr.contains_expanded_iff (SortedSet.contains_ofList results) pairs,
    SortedSet.contains_ofList, List.any_eq_true]
  simp only [beq_iff_eq]

theorem mem_aggregateFrame? {frame : Frame}
    (found : aggregateFrame? predicates conditions groupKey outputs supply =
      some (frame, next)) :
    overAggregate groupKey (resolve groupKey predicates ⟨outputs, supply⟩).2.outputs conditions
      (resolve groupKey predicates ⟨outputs, supply⟩).1 input ∈ (frame input).postorder := by
  obtain ⟨_, ⟨_, rfl⟩ | ⟨_, same, rfl⟩⟩ := aggregateFrame?_some (r := ⟨outputs, supply⟩) found
  · exact List.mem_append_left _ (Plan.mem_postorder_self _)
  · rw [same]
    exact Plan.mem_postorder_self _

/-- Whether or not a having stands in between: each predicate resolved over the outputs of the
completed aggregation expands as the predicate it came from. -/
theorem completed_aggregation_expands
    (distinct : (aliasIds (aliasesOf outputs)).Nodup)
    (keys : ∀ k ∈ groupKey, k.ReadsOnly (· ∉ aliasIds (aliasesOf outputs)))
    (entries : ∀ a ∈ aliasesOf outputs, a.expr.ReadsOnly (· ∉ aliasIds (aliasesOf outputs)))
    (calls : ∀ p ∈ predicates.toList, ∀ call ∈ p.postorder, call.isAggregate = true →
      call.ReadsOnly (· ∉ aliasIds (aliasesOf outputs)))
    (above : ∀ id ∈ aliasIds (aliasesOf outputs), id < supply.next)
    (reads : ∀ p ∈ predicates.toList, p.ReadsOnly (· < supply.next))
    (completed : (input.aggregate groupKey outputs).completeAggregate? predicates supply =
        some (fragment, next) ∨
      ∃ conditions, ((input.aggregate groupKey outputs).having conditions).completeHavingAggregate?
        predicates supply = some (fragment, next)) :
    ∃ conditions extended resolved results,
      overAggregate groupKey extended conditions resolved input ∈ fragment.postorder ∧
      results = (Expr.replaceAll (resolveStep groupKey) predicates.toList ⟨outputs, supply⟩).1 ∧
      resolved = .ofList results ∧
      List.Forall₂
        (fun p q => (q.expand (aliasesOf extended) == p.expand (aliasesOf extended)) = true)
        predicates.toList results ∧
      (SortedSet.ofList (resolved.toList.map (Expr.expand (aliasesOf extended))) ==
        SortedSet.ofList (predicates.toList.map (Expr.expand (aliasesOf extended)))) = true := by
  have numbered : Numbered (aliasIds (aliasesOf outputs)) supply.next ⟨outputs, supply⟩ :=
    ⟨⟨distinct, fun _ => Or.inl⟩, entries, above, Nat.le_refl _⟩
  have each := standsFor_resolve keys (fun p mem => ⟨reads p mem, calls p mem⟩) numbered
  obtain ⟨conditions, node⟩ : ∃ conditions,
      overAggregate groupKey (resolve groupKey predicates ⟨outputs, supply⟩).2.outputs conditions
        (resolve groupKey predicates ⟨outputs, supply⟩).1 input ∈ fragment.postorder := by
    rcases completed with completed | ⟨conditions, completed⟩
    · obtain ⟨frame, found, rfl⟩ := exists_frame completed
      exact ⟨none, mem_aggregateFrame? found⟩
    · obtain ⟨frame, found, rfl⟩ := exists_frame completed
      exact ⟨some conditions, mem_aggregateFrame? found⟩
  exact ⟨conditions, _, _, _, node, rfl, rfl, each, expanded_ofList each⟩

end

open Shop in
theorem completed_aggregation_expands_crowded :
    ∃ fragment next, ((orders.aggregate groupings groupTotals).having
        large).completeHavingAggregate? (.ofList crowded) ⟨4⟩ = some (fragment, next) ∧
      ∃ conditions extended resolved results,
        overAggregate groupings extended conditions resolved orders ∈ fragment.postorder ∧
        results = (Expr.replaceAll (resolveStep groupings) (SortedSet.ofList crowded).toList
          ⟨groupTotals, ⟨4⟩⟩).1 ∧
        resolved = .ofList results ∧
        List.Forall₂
          (fun p q => (q.expand (aliasesOf extended) == p.expand (aliasesOf extended)) = true)
          (SortedSet.ofList crowded).toList results ∧
        (SortedSet.ofList (resolved.toList.map (Expr.expand (aliasesOf extended))) ==
          SortedSet.ofList ((SortedSet.ofList crowded).toList.map
            (Expr.expand (aliasesOf extended)))) = true := by
  have keys : ∀ k ∈ groupings, k.ReadsOnly (· ∉ aliasIds (aliasesOf groupTotals)) := by decide
  have entries : ∀ a ∈ aliasesOf groupTotals,
      a.expr.ReadsOnly (· ∉ aliasIds (aliasesOf groupTotals)) := by decide
  have calls : ∀ p ∈ (SortedSet.ofList crowded).toList, ∀ call ∈ p.postorder,
      call.isAggregate = true → call.ReadsOnly (· ∉ aliasIds (aliasesOf groupTotals)) := by decide
  have above : ∀ id ∈ aliasIds (aliasesOf groupTotals), id < (Supply.mk 4).next := by decide
  have reads : ∀ p ∈ (SortedSet.ofList crowded).toList,
      p.ReadsOnly (· < (Supply.mk 4).next) := by decide
  have completed : ((orders.aggregate groupings groupTotals).having
      large).completeHavingAggregate? (.ofList crowded) ⟨4⟩ = some (_, _) := rfl
  refine ⟨_, _, completed, ?_⟩
  exact completed_aggregation_expands (by decide) keys entries calls above reads
    (Or.inr ⟨large, completed⟩)

end Qualify
end QueryPlan

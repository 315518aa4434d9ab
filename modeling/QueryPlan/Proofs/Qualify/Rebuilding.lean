import QueryPlan.Proofs.Qualify.Waiting

/-!
What a completion builds, and how far down the visit of a sweep goes. Main statements: a completion
leaves a qualify over the projection that has nothing to complete, or one over the aggregation that
waits less; so the visit ends, although it goes through what it has just put in place, and whatever
identifiers are handed out on the way.
-/
namespace QueryPlan
namespace Plan
open Qualify

/-- The plan that completing a qualify puts in its place, over the same input. -/
inductive Rebuilt (s : Supply) : Plan → Plan → Prop
  | resolved {groupKey outputs conditions predicates input} :
      Rebuilt s (overAggregate groupKey outputs conditions predicates input)
        (overAggregate groupKey (resolve groupKey predicates ⟨outputs, s⟩).2.outputs conditions
          (resolve groupKey predicates ⟨outputs, s⟩).1 input)
  | extended {groupKey outputs conditions predicates input} (columns : List Slot) :
      Rebuilt s (overAggregate groupKey outputs conditions predicates input)
        ((overAggregate groupKey (resolve groupKey predicates ⟨outputs, s⟩).2.outputs conditions
          (resolve groupKey predicates ⟨outputs, s⟩).1 input).projectSlots columns false)
  | project {projections distinct predicates input wider rewritten} (columns : List Slot)
      (supplied : ((Plan.project input wider false).qualify rewritten).Supplied) :
      Rebuilt s ((Plan.project input projections distinct).qualify predicates)
        (((Plan.project input wider false).qualify rewritten).projectSlots columns distinct)
  | having {projections distinct conditions predicates input wider rewritten}
      (columns : List Slot)
      (supplied : ((Plan.project input wider false).qualify rewritten).Supplied) :
      Rebuilt s (((Plan.project input projections distinct).having conditions).qualify predicates)
        ((((Plan.project input wider false).qualify rewritten).having conditions).projectSlots
          columns distinct)
  | distinctHaving {projections distinct conditions predicates input wider rewritten}
      (kept columns : List Slot)
      (supplied : ((Plan.project input wider false).qualify rewritten).Supplied) :
      Rebuilt s (((Plan.project input projections distinct).having conditions).qualify predicates)
        (((((Plan.project input wider false).qualify rewritten).projectSlots kept false).having
          conditions).projectSlots columns distinct)

section
variable {p q : Plan} {s t : Supply}

theorem not_supplied_of_completed (completed : p.completeQualify? s = some (q, t)) :
    ¬ p.Supplied := by
  intro supplied
  rw [completeQualify?_eq_none_iff.2 supplied] at completed
  cases completed

theorem rebuilt_of_aggregateFrame? {groupKey : List Expr} {outputs : List NamedExpr}
    (conditions : Option Conjuncts) {predicates : Conjuncts} {frame : Frame} {input : Plan}
    (found : aggregateFrame? predicates conditions groupKey outputs s = some (frame, t)) :
    Rebuilt s (overAggregate groupKey outputs conditions predicates input) (frame input) := by
  obtain ⟨_, ⟨_, rfl⟩ | ⟨_, same, rfl⟩⟩ := aggregateFrame?_some (r := ⟨outputs, s⟩) found
  · exact .extended _
  · have resolved : Rebuilt s (overAggregate groupKey outputs conditions predicates input)
        (overAggregate groupKey (resolve groupKey predicates ⟨outputs, s⟩).2.outputs conditions
          (resolve groupKey predicates ⟨outputs, s⟩).1 input) := .resolved
    rwa [same] at resolved

theorem supplied_completion? {predicates : Conjuncts} {projections wider : List NamedExpr}
    {completion : Completion} {input : Plan}
    (found : completion? predicates (.ofList (projections.map NamedExpr.slot)) s =
      some completion) (sub : projections ++ completion.columns ⊆ wider) :
    ((input.project wider false).qualify completion.predicates).Supplied := by
  have nothing := completion?_wider found sub s
  exact completeQualify?_eq_none_iff.1 (complete_project input false nothing)

theorem rebuilt_of_completeQualify? (completed : p.completeQualify? s = some (q, t)) :
    Rebuilt s p q := by
  unfold completeQualify? at completed
  split at completed
  case h_1 =>
    obtain ⟨frame, found, rfl⟩ := exists_frame completed
    exact rebuilt_of_aggregateFrame? (some _) found
  case h_2 =>
    obtain ⟨frame, found, rfl⟩ := exists_frame completed
    obtain ⟨completion, missing, ⟨rfl, rfl⟩ | ⟨rfl, rfl⟩⟩ := havingProjectFrame?_cases found
    · exact .having _ (supplied_completion? missing (List.Subset.refl _))
    · refine .distinctHaving _ _ (supplied_completion? missing ?_)
      rw [← List.append_assoc]
      exact List.subset_append_left ..
  case h_3 =>
    obtain ⟨frame, found, rfl⟩ := exists_frame completed
    exact rebuilt_of_aggregateFrame? none found
  case h_4 =>
    obtain ⟨frame, found, rfl⟩ := exists_frame completed
    obtain ⟨completion, missing, built⟩ := Option.bind_eq_some_iff.1 found
    cases built
    exact .project _ (supplied_completion? missing (List.Subset.refl _))
  case h_5 => cases completed

end

section
variable {cost : List Expr → List NamedExpr → Conjuncts → Nat} {groupKey : List Expr}
  {outputs : List NamedExpr} {conditions : Option Conjuncts} {predicates : Conjuncts}
  {input : Plan}

theorem supplied_overAggregate :
    (overAggregate groupKey outputs conditions predicates input).Supplied ↔
      AllSettled groupKey outputs predicates := by
  cases conditions <;> exact Iff.rfl

theorem wait_settled (settled : AllSettled groupKey outputs predicates) :
    (overAggregate groupKey outputs conditions predicates input).wait cost = 0 := by
  have supplied : (overAggregate groupKey outputs conditions predicates input).Supplied :=
    supplied_overAggregate.2 settled
  cases conditions with
  | none => exact wait_supplied supplied
  | some conditions => exact wait_supplied supplied

theorem wait_unsettled (unsettled : ¬ AllSettled groupKey outputs predicates) :
    (overAggregate groupKey outputs conditions predicates input).wait cost =
      cost groupKey outputs predicates + 1 := by
  have missing : ¬ (overAggregate groupKey outputs conditions predicates input).Supplied :=
    mt supplied_overAggregate.1 unsettled
  cases conditions with
  | none =>
    obtain ⟨shape, found, same⟩ := wait_unsupplied cost missing
    cases found
    exact same
  | some conditions =>
    obtain ⟨shape, found, same⟩ := wait_unsupplied cost missing
    cases found
    exact same

/-- Where predicates are not settled, resolving them once settles them or lowers the cost, so long
as identifiers are handed out from `first` on. -/
def Spends (cost : List Expr → List NamedExpr → Conjuncts → Nat)
    (admitted : List Expr → List NamedExpr → Prop) (first : SlotId) : Prop :=
  ∀ groupKey outputs predicates (supply : Supply), first ≤ supply.next →
    admitted groupKey outputs → ¬ AllSettled groupKey outputs predicates →
      AllSettled groupKey (resolve groupKey predicates ⟨outputs, supply⟩).2.outputs
          (resolve groupKey predicates ⟨outputs, supply⟩).1 ∨
        (admitted groupKey (resolve groupKey predicates ⟨outputs, supply⟩).2.outputs ∧
          cost groupKey (resolve groupKey predicates ⟨outputs, supply⟩).2.outputs
            (resolve groupKey predicates ⟨outputs, supply⟩).1 < cost groupKey outputs predicates)

theorem spends_measure : Spends measure (fun _ _ => True) 0 := by
  intro groupKey outputs predicates supply _ _ unsettled
  rcases settled_or_measure_lt groupKey predicates ⟨outputs, supply⟩ with settled | less
  · exact (unsettled settled).elim
  · exact Or.inr ⟨trivial, less⟩

variable (conditions input) in
theorem wait_resolve_lt {admitted : List Expr → List NamedExpr → Prop} {first : SlotId}
    (spends : Spends cost admitted first) {s : Supply} (above : first ≤ s.next)
    (admits : admitted groupKey outputs) (unsettled : ¬ AllSettled groupKey outputs predicates) :
    (overAggregate groupKey (resolve groupKey predicates ⟨outputs, s⟩).2.outputs conditions
      (resolve groupKey predicates ⟨outputs, s⟩).1 input).wait cost <
        (overAggregate groupKey outputs conditions predicates input).wait cost := by
  rw [wait_unsettled unsettled]
  by_cases settled : AllSettled groupKey (resolve groupKey predicates ⟨outputs, s⟩).2.outputs
    (resolve groupKey predicates ⟨outputs, s⟩).1
  · rw [wait_settled settled]
    exact Nat.succ_pos _
  · rw [wait_unsettled settled]
    rcases spends _ _ _ s above admits unsettled with done | ⟨_, less⟩
    · exact (settled done).elim
    · omega

end

section
variable {p q : Plan} {s t : Supply}

def rank : Plan → Nat
  | .get _ => 0
  | .unary o p => p.rank + 2 * (unary o p).wait measure + 1
  | .join _ p q => p.rank + q.rank + 1

theorem rank_qualify (p : Plan) (predicates : Conjuncts) :
    (p.qualify predicates).rank = p.rank + 2 * (p.qualify predicates).wait measure + 1 := rfl

theorem rank_unary {o : Operator} (other : o.isQualify = false) (p : Plan) :
    (unary o p).rank = p.rank + 1 := by
  rw [rank, wait_unary other]

theorem rank_of_mem_children (child : q ∈ p.children) : q.rank < p.rank := by
  cases p with
  | get => cases child
  | unary o p =>
    rw [List.mem_singleton.1 child, rank]
    omega
  | join j l r =>
    rw [rank]
    rcases List.mem_cons.1 child with rfl | child
    · omega
    · rw [List.mem_singleton.1 child]
      omega

theorem rank_overAggregate_lt {groupKey : List Expr} {outputs outputs' : List NamedExpr}
    {conditions : Option Conjuncts} {predicates predicates' : Conjuncts} {input : Plan}
    (less : (overAggregate groupKey outputs' conditions predicates' input).wait measure <
      (overAggregate groupKey outputs conditions predicates input).wait measure) :
    (overAggregate groupKey outputs' conditions predicates' input).rank <
      (overAggregate groupKey outputs conditions predicates input).rank := by
  cases conditions with
  | none =>
    simp only [overAggregate, rank_qualify, rank_unary, Operator.isQualify] at less ⊢
    omega
  | some conditions =>
    simp only [overAggregate, rank_qualify, rank_unary, Operator.isQualify] at less ⊢
    omega

theorem Rebuilt.rank_lt (rebuilt : Rebuilt s p q) (missing : ¬ p.Supplied) {child : Plan}
    (below : child ∈ q.children) : child.rank < p.rank := by
  cases rebuilt with
  | @resolved groupKey outputs conditions predicates input =>
    have less := wait_resolve_lt conditions input spends_measure (Nat.zero_le s.next) trivial
      (mt supplied_overAggregate.2 missing)
    exact Nat.lt_trans (rank_of_mem_children below) (rank_overAggregate_lt less)
  | @extended groupKey outputs conditions predicates input columns =>
    have less := wait_resolve_lt conditions input spends_measure (Nat.zero_le s.next) trivial
      (mt supplied_overAggregate.2 missing)
    rw [List.mem_singleton.1 below]
    exact rank_overAggregate_lt less
  | project columns supplied | having columns supplied | distinctHaving kept columns supplied =>
    have waits := wait_pos measure missing
    rw [List.mem_singleton.1 below]
    simp only [projectSlots, rank_qualify, rank_unary, Operator.isQualify,
      wait_supplied supplied, underHaving, wait_unary, after, if_true]
    omega

/-- The visit comes from the one plan to the other at once, with some identifiers to hand out. -/
def VisitedFrom (q p : Plan) : Prop := ∃ s, q ∈ (p.completeRoot s).1.children

theorem rank_of_visitedFrom (visited : VisitedFrom q p) : q.rank < p.rank := by
  obtain ⟨s, child⟩ := visited
  cases completed : p.completeQualify? s with
  | none =>
    rw [completeRoot_eq_self completed] at child
    exact rank_of_mem_children child
  | some next =>
    rw [completeRoot_eq completed] at child
    have rebuilt := rebuilt_of_completeQualify? completed
    exact rebuilt.rank_lt (not_supplied_of_completed completed) child

theorem wellFounded_visitedFrom : WellFounded VisitedFrom :=
  Subrelation.wf rank_of_visitedFrom (InvImage.wf rank Nat.lt_wfRel.wf)

theorem next_le_completeQualify? (completed : p.completeQualify? s = some (q, t)) :
    s.next ≤ t.next := by
  have aggregate {groupKey : List Expr} {outputs : List NamedExpr} {conditions : Option Conjuncts}
      {predicates : Conjuncts} {frame : Frame}
      (found : aggregateFrame? predicates conditions groupKey outputs s = some (frame, t)) :
      s.next ≤ t.next := by
    obtain ⟨rfl, _⟩ := aggregateFrame?_some (r := ⟨outputs, s⟩) found
    exact next_le_resolve predicates ⟨outputs, s⟩
  unfold completeQualify? at completed
  split at completed
  case h_5 => cases completed
  all_goals obtain ⟨frame, found, _⟩ := exists_frame completed
  case h_1 | h_3 => exact aggregate found
  case h_2 | h_4 =>
    obtain ⟨completion, missing, built⟩ := Option.bind_eq_some_iff.1 found
    cases built
    exact next_le_completion? missing

theorem next_le_completeRoot (root : p.completeRoot s = (q, t)) : s.next ≤ t.next := by
  cases completed : p.completeQualify? s with
  | none =>
    rw [completeRoot_eq_self completed] at root
    cases root
    exact Nat.le_refl _
  | some next =>
    rw [completeRoot_eq completed] at root
    cases root
    exact next_le_completeQualify? completed

theorem Swept.next_le {P : Plan → Plan → Prop} (visit : Swept P p s q t) : s.next ≤ t.next := by
  induction visit with
  | get root => exact next_le_completeRoot root
  | unary root _ _ _ below => exact Nat.le_trans (next_le_completeRoot root) below
  | join root _ _ _ _ left right =>
    exact Nat.le_trans (next_le_completeRoot root) (Nat.le_trans left right)

end

end Plan
end QueryPlan

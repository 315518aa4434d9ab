import QueryPlan.Proofs.Qualify.Resolution
import QueryPlan.Proofs.Qualify.Windows
import QueryPlan.Qualify.Sweep

namespace QueryPlan
namespace Plan

@[simp] theorem output_unary (o : Operator) (p : Plan) : (unary o p).output = o.output p.output :=
  rfl

@[simp] theorem output_projectSlots (p : Plan) (slots : List Slot) (distinct : Bool) :
    (p.projectSlots slots distinct).output = slots := by
  simp [projectSlots, Operator.output, NamedExpr.slot, Function.comp_def]

end Plan

namespace Qualify

section
variable {predicates conditions : Conjuncts} {projections : List NamedExpr} {distinct : Bool}
  {supply next : Supply} {frame : Frame}

theorem output_projectFrame?
    (found : projectFrame? predicates projections distinct supply = some (frame, next))
    (input : Plan) : (frame input).output = projections.map NamedExpr.slot := by
  obtain ⟨completion, _, built⟩ := Option.bind_eq_some_iff.1 found
  cases built
  exact Plan.output_projectSlots ..

theorem output_havingProjectFrame?
    (found : havingProjectFrame? predicates conditions projections distinct supply =
      some (frame, next)) (input : Plan) :
    (frame input).output = projections.map NamedExpr.slot := by
  obtain ⟨completion, _, built⟩ := Option.bind_eq_some_iff.1 found
  cases built
  cases distinct <;> exact Plan.output_projectSlots ..

end

section
variable {groupKey : List Expr} {outputs : List NamedExpr} {conditions : Option Conjuncts}
  {predicates : Conjuncts}

@[simp] theorem output_overAggregate (input : Plan) :
    (overAggregate groupKey outputs conditions predicates input).output =
      outputs.map NamedExpr.slot := by
  cases conditions <;> rfl

theorem output_aggregateFrame? {supply next : Supply} {frame : Frame}
    (found : aggregateFrame? predicates conditions groupKey outputs supply = some (frame, next))
    (input : Plan) : (frame input).output = outputs.map NamedExpr.slot := by
  obtain ⟨_, ⟨_, rfl⟩ | ⟨_, _, rfl⟩⟩ := aggregateFrame?_some (r := ⟨outputs, supply⟩) found
  · exact Plan.output_projectSlots ..
  · exact output_overAggregate input

end

end Qualify

namespace Plan
open Qualify

section
variable {predicates : Conjuncts} {supply next : Supply} {child fragment : Plan}

theorem output_of_map_frame {frame? : Option (Frame × Supply)} {input : Plan} {columns : List Slot}
    (keeps : ∀ frame t, frame? = some (frame, t) → (frame input).output = columns)
    (found : frame?.map (fun (frame, t) => (frame input, t)) = some (fragment, next)) :
    fragment.output = columns := by
  obtain ⟨⟨frame, t⟩, built, same⟩ := Option.map_eq_some_iff.1 found
  cases same
  exact keeps frame _ built

theorem output_completeProject?
    (found : child.completeProject? predicates supply = some (fragment, next)) :
    fragment.output = child.output := by
  unfold completeProject? at found
  split at found
  · exact output_of_map_frame (fun _ _ built => output_projectFrame? built _) found
  · cases found

theorem output_completeHavingProject?
    (found : child.completeHavingProject? predicates supply = some (fragment, next)) :
    fragment.output = child.output := by
  unfold completeHavingProject? at found
  split at found
  · exact output_of_map_frame (fun _ _ built => output_havingProjectFrame? built _) found
  · cases found

theorem output_completeAggregate?
    (found : child.completeAggregate? predicates supply = some (fragment, next)) :
    fragment.output = child.output := by
  unfold completeAggregate? at found
  split at found
  · exact output_of_map_frame (fun _ _ built => output_aggregateFrame? built _) found
  · cases found

theorem output_completeHavingAggregate?
    (found : child.completeHavingAggregate? predicates supply = some (fragment, next)) :
    fragment.output = child.output := by
  unfold completeHavingAggregate? at found
  split at found
  · exact output_of_map_frame (fun _ _ built => output_aggregateFrame? built _) found
  · cases found

theorem output_completeQualify? {p : Plan}
    (found : p.completeQualify? supply = some (fragment, next)) : fragment.output = p.output := by
  unfold completeQualify? at found
  split at found
  · exact (output_completeHavingAggregate? found).trans rfl
  · exact (output_completeHavingProject? found).trans rfl
  · exact (output_completeAggregate? found).trans rfl
  · exact (output_completeProject? found).trans rfl
  · cases found

end

/-- The node once its qualify, if that lacks columns, has been completed. -/
def completeRoot (p : Plan) (supply : Supply) : Plan × Supply :=
  (p.completeQualify? supply).getD (p, supply)

/-- A visit from the top down: the node is completed, and then the inputs it has now are visited,
from left to right. `P` holds at each node visited between what it was and what replaces it, and
between what it was and what it is in the end. -/
inductive Swept (P : Plan → Plan → Prop) : Plan → Supply → Plan → Supply → Prop
  | get {p r s t} (root : p.completeRoot s = (.get r, t)) (replaced : P p (.get r)) :
      Swept P p s (.get r) t
  | unary {p o q q' s t u} (root : p.completeRoot s = (.unary o q, t))
      (input : Swept P q t q' u) (replaced : P p (.unary o q)) (result : P p (.unary o q')) :
      Swept P p s (.unary o q') u
  | join {p j l l' r r' s t u v} (root : p.completeRoot s = (.join j l r, t))
      (left : Swept P l t l' u) (right : Swept P r u r' v) (replaced : P p (.join j l r))
      (result : P p (.join j l' r')) : Swept P p s (.join j l' r') v

def SameOutput (before after : Plan) : Prop := after.output = before.output

theorem completeRoot_eq_self {p : Plan} {s : Supply} (complete : p.completeQualify? s = none) :
    p.completeRoot s = (p, s) := by
  rw [completeRoot, complete, Option.getD_none]

theorem completeRoot_eq {p q : Plan} {s t : Supply}
    (completed : p.completeQualify? s = some (q, t)) : p.completeRoot s = (q, t) := by
  rw [completeRoot, completed, Option.getD_some]

theorem sameOutput_completeRoot {p q : Plan} {s t : Supply} (root : p.completeRoot s = (q, t)) :
    SameOutput p q := by
  cases completed : p.completeQualify? s with
  | none =>
    rw [completeRoot_eq_self completed] at root
    cases root
    rfl
  | some next =>
    rw [completeRoot_eq completed] at root
    cases root
    exact output_completeQualify? completed

theorem Swept.sameOutput {p q : Plan} {s t : Supply} (visit : Swept SameOutput p s q t) :
    SameOutput p q := by
  cases visit with
  | get root replaced => exact replaced
  | unary root input replaced result => exact result
  | join root left right replaced result => exact result

section
variable {s t u v : Supply}

theorem swept_unary {p q q' : Plan} {o : Operator} (root : p.completeRoot s = (.unary o q, t))
    (input : Swept SameOutput q t q' u) : Swept SameOutput p s (.unary o q') u := by
  have replaced := sameOutput_completeRoot root
  refine .unary root input replaced ?_
  rw [SameOutput, output_unary, input.sameOutput]
  exact replaced

theorem swept_join {p l l' r r' : Plan} {j : Join} (root : p.completeRoot s = (.join j l r, t))
    (left : Swept SameOutput l t l' u) (right : Swept SameOutput r u r' v) :
    Swept SameOutput p s (.join j l' r') v := by
  have replaced := sameOutput_completeRoot root
  refine .join root left right replaced ?_
  rw [SameOutput, output, left.sameOutput, right.sameOutput]
  exact replaced

theorem swept_over {q q' : Plan} {o : Operator}
    (complete : (Plan.unary o q).completeQualify? s = none) (input : Swept SameOutput q s q' t) :
    Swept SameOutput (.unary o q) s (.unary o q') t :=
  swept_unary (completeRoot_eq_self complete) input

end

theorem completeQualify?_overAggregate (groupKey : List Expr) (outputs : List NamedExpr)
    (conditions : Option Conjuncts) (predicates : Conjuncts) (input : Plan) (s : Supply) :
    (overAggregate groupKey outputs conditions predicates input).completeQualify? s =
      (aggregateFrame? predicates conditions groupKey outputs s).map
        fun (frame, t) => (frame input, t) := by
  cases conditions <;> rfl

section
variable {groupKey : List Expr} {conditions : Option Conjuncts} {input q : Plan} {u : Supply}

theorem swept_overAggregate {p : Plan} {s t : Supply} {outputs : List NamedExpr}
    {predicates : Conjuncts}
    (root : p.completeRoot s = (overAggregate groupKey outputs conditions predicates input, t))
    (below : Swept SameOutput input t q u) :
    Swept SameOutput p s (overAggregate groupKey outputs conditions predicates q) u := by
  cases conditions with
  | none => exact swept_unary root (swept_over rfl below)
  | some conditions => exact swept_unary root (swept_over rfl (swept_over rfl below))

theorem swept_settle {predicates : Conjuncts} {r : Resolution} {frame : Frame} {t : Supply}
    (settled : settle predicates conditions groupKey r = (frame, t))
    (below : Swept SameOutput input t q u) :
    Swept SameOutput (overAggregate groupKey r.outputs conditions predicates input) r.supply
      (frame q) u := by
  by_cases grown : r.outputs.length < (resolve groupKey predicates r).2.outputs.length
  · have root : completeRoot (overAggregate groupKey r.outputs conditions predicates input)
        r.supply = ((overAggregate groupKey (resolve groupKey predicates r).2.outputs conditions
          (resolve groupKey predicates r).1 input).projectSlots
            (r.outputs.map NamedExpr.slot) false, (resolve groupKey predicates r).2.supply) := by
      apply completeRoot_eq
      rw [completeQualify?_overAggregate, aggregateFrame?_grown grown, Option.map_some]
    rw [settle, dif_pos grown] at settled
    cases settled
    exact swept_unary root (swept_settle rfl below)
  · by_cases equal : ((resolve groupKey predicates r).1 == predicates) = true
    · have complete : completeQualify? r.supply
          (overAggregate groupKey r.outputs conditions predicates input) = none := by
        rw [completeQualify?_overAggregate, aggregateFrame?_same grown equal, Option.map_none]
      rw [settle, dif_neg grown, if_pos equal] at settled
      cases settled
      exact swept_overAggregate (completeRoot_eq_self complete) below
    · have root : completeRoot (overAggregate groupKey r.outputs conditions predicates input)
          r.supply = (overAggregate groupKey (resolve groupKey predicates r).2.outputs conditions
            (resolve groupKey predicates r).1 input, (resolve groupKey predicates r).2.supply) := by
        apply completeRoot_eq
        rw [completeQualify?_overAggregate, aggregateFrame?_changed grown equal, Option.map_some]
      rw [settle, dif_neg grown, if_neg equal] at settled
      cases settled
      exact swept_overAggregate root below
termination_by measure groupKey r.outputs predicates
decreasing_by exact measure_resolve_lt grown

end

section
variable {predicates conditions : Conjuncts} {projections : List NamedExpr} {distinct : Bool}
  {input q : Plan} {s u : Supply}

theorem completeQualify?_project (input : Plan) (distinct : Bool) :
    ((input.project projections distinct).qualify predicates).completeQualify? s =
      (projectFrame? predicates projections distinct s).map
        fun (frame, t) => (frame input, t) := rfl

theorem completeQualify?_havingProject (input : Plan) (distinct : Bool) :
    (((input.project projections distinct).having conditions).qualify predicates).completeQualify? s
      = (havingProjectFrame? predicates conditions projections distinct s).map
        fun (frame, t) => (frame input, t) := rfl

theorem complete_project (input : Plan) (distinct : Bool)
    (nothing : completion? predicates (.ofList (projections.map NamedExpr.slot)) s = none) :
    ((input.project projections distinct).qualify predicates).completeQualify? s = none := by
  rw [completeQualify?_project, projectFrame?_none distinct nothing, Option.map_none]

theorem complete_havingProject (input : Plan) (distinct : Bool)
    (nothing : completion? predicates (.ofList (projections.map NamedExpr.slot)) s = none) :
    (((input.project projections distinct).having conditions).qualify predicates).completeQualify? s
      = none := by
  rw [completeQualify?_havingProject, havingProjectFrame?_none conditions distinct nothing,
    Option.map_none]

theorem completeRoot_project {frame : Frame} {t : Supply} (input : Plan)
    (found : projectFrame? predicates projections distinct s = some (frame, t)) :
    completeRoot ((input.project projections distinct).qualify predicates) s =
      (frame input, t) := by
  apply completeRoot_eq
  rw [completeQualify?_project, found, Option.map_some]

theorem completeRoot_havingProject {frame : Frame} {t : Supply} (input : Plan)
    (found : havingProjectFrame? predicates conditions projections distinct s = some (frame, t)) :
    completeRoot (((input.project projections distinct).having conditions).qualify predicates) s =
      (frame input, t) := by
  apply completeRoot_eq
  rw [completeQualify?_havingProject, found, Option.map_some]

theorem swept_completed {completion : Completion} {t : Supply} {wider : List NamedExpr}
    (found : completion? predicates (.ofList (projections.map NamedExpr.slot)) s = some completion)
    (sub : projections ++ completion.columns ⊆ wider) (below : Swept SameOutput input t q u) :
    Swept SameOutput ((input.project wider false).qualify completion.predicates) t
      ((q.project wider false).qualify completion.predicates) u := by
  have nothing := completion?_wider found sub t
  exact swept_over (complete_project input false nothing) (swept_over rfl below)

theorem swept_project {frame : Frame} {t : Supply}
    (found : (projectFrame? predicates projections distinct s).getD
      (fun input => (input.project projections distinct).qualify predicates, s) = (frame, t))
    (below : Swept SameOutput input t q u) :
    Swept SameOutput ((input.project projections distinct).qualify predicates) s (frame q) u := by
  cases missing : completion? predicates (.ofList (projections.map NamedExpr.slot)) s with
  | none =>
    rw [projectFrame?_none distinct missing] at found
    cases found
    exact swept_over (complete_project input distinct missing) (swept_over rfl below)
  | some completion =>
    have built := projectFrame?_some distinct missing
    rw [built] at found
    cases found
    have root := completeRoot_project input built
    have inner := swept_completed missing (List.Subset.refl _) below
    exact swept_unary root inner

theorem swept_havingProject {frame : Frame} {t : Supply}
    (found : (havingProjectFrame? predicates conditions projections distinct s).getD
      (fun input => ((input.project projections distinct).having conditions).qualify predicates, s)
        = (frame, t))
    (below : Swept SameOutput input t q u) :
    Swept SameOutput (((input.project projections distinct).having conditions).qualify predicates) s
      (frame q) u := by
  cases missing : completion? predicates (.ofList (projections.map NamedExpr.slot)) s with
  | none =>
    rw [havingProjectFrame?_none conditions distinct missing] at found
    cases found
    exact swept_over (complete_havingProject input distinct missing)
      (swept_over rfl (swept_over rfl below))
  | some completion =>
    cases distinct with
    | true =>
      have built := havingProjectFrame?_some_distinct conditions missing
      rw [built] at found
      cases found
      have root := completeRoot_havingProject input built
      have inner := swept_completed missing
        (subset_withColumns _ (missingColumns conditions projections)) below
      exact swept_unary root (swept_over rfl (swept_over rfl inner))
    | false =>
      have built := havingProjectFrame?_some conditions missing
      rw [built] at found
      cases found
      have root := completeRoot_havingProject input built
      have inner := swept_completed missing (List.Subset.refl _) below
      exact swept_unary root (swept_over rfl inner)

end

theorem swept_sweepQualify (p : Plan) (s : Supply) :
    Swept SameOutput p s (p.sweepQualify s).1 (p.sweepQualify s).2 := by
  fun_induction sweepQualify p s with
  | case1 r s => exact .get (completeRoot_eq_self rfl) rfl
  | case2 j l r s l' t foundLeft r' u foundRight left right =>
    rw [foundLeft] at left
    rw [foundRight] at right
    exact swept_join (completeRoot_eq_self rfl) left right
  | case3 predicates conditions groupKey outputs input s frame t settled q u found below =>
    rw [found] at below
    exact swept_settle settled below
  | case4 predicates conditions projections distinct input s unchanged frame t built q u found
      below =>
    rw [found] at below
    exact swept_havingProject built below
  | case5 predicates groupKey outputs input s frame t settled q u found below =>
    rw [found] at below
    exact swept_settle settled below
  | case6 predicates projections distinct input s unchanged frame t built q u found below =>
    rw [found] at below
    exact swept_project built below
  | case7 o input s noHavingAggregate noHavingProject noAggregate noProject q t found below =>
    rw [found] at below
    apply swept_over _ below
    unfold completeQualify?
    split
    case h_1 shape =>
      cases shape
      exact (noHavingAggregate _ _ _ _ _ rfl rfl).elim
    case h_2 shape =>
      cases shape
      exact (noHavingProject _ _ _ _ _ rfl rfl).elim
    case h_3 shape =>
      cases shape
      exact (noAggregate _ _ _ _ rfl rfl).elim
    case h_4 shape =>
      cases shape
      exact (noProject _ _ _ _ rfl rfl).elim
    case h_5 => rfl

end Plan
end QueryPlan

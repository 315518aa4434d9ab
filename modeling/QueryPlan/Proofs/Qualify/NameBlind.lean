import QueryPlan.Proofs.Plan.NameBlind
import QueryPlan.Proofs.Qualify.Schema

namespace QueryPlan
namespace Qualify

theorem freshUnnamed_alike {a b : Expr} (equal : Alike a b) (supply : Supply) :
    Alike (Alias.freshUnnamed a supply).1 (Alias.freshUnnamed b supply).1 :=
  Bool.and_eq_true_iff.2 ⟨Slot.beq_iff.2 rfl, equal⟩

theorem find?_alike {bindings bindings' : List Alias} {a b : Expr}
    (same : List.Forall₂ Alike bindings bindings') (equal : Alike a b) :
    Option.Rel Alike (bindings.find? fun x => x.expr == a)
      (bindings'.find? fun x => x.expr == b) := by
  refine find?_of_forall₂ same fun x y binding => ?_
  rw [BEq.congr_left (Alias.expr_alike binding), BEq.congr_right equal]

structure SameFrame (x y : Frame × Supply) : Prop where
  plans : ∀ p q, Alike p q → Alike (x.1 p) (y.1 q)
  supply : x.2 = y.2

structure SameColumns (s t : WindowColumns) : Prop where
  aliases : List.Forall₂ Alike s.aliases t.aliases
  supply : s.supply = t.supply

theorem windowStep_together : Expr.StepsTogether SameColumns windowStep windowStep := by
  rintro a b ⟨aliases, supply⟩ ⟨aliases', _⟩ equal ⟨same, rfl⟩
  unfold windowStep
  rw [Expr.isWindow_eq_of_alike equal]
  split
  · rcases cases_of_rel (find?_alike same equal) with ⟨new, new'⟩ | ⟨x, y, known, known', binding⟩
    · rw [new, new']
      -- The columns added have one identifier, though the texts that name them may differ.
      have added := freshUnnamed_alike equal supply
      exact .some ⟨Expr.slot_alike (Alias.slot_alike added),
        ⟨List.rel_append same (.cons added .nil), rfl⟩⟩
    · rw [known, known']
      exact .some ⟨Expr.slot_alike (Alias.slot_alike binding), ⟨same, rfl⟩⟩
  · exact .none

structure SameCompletion (c d : Completion) : Prop where
  predicates : Alike c.predicates d.predicates
  columns : List.Forall₂ Alike c.columns d.columns
  supply : c.supply = d.supply

section
variable {predicates predicates' conditions conditions' : Conjuncts}
  {projections projections' : List NamedExpr}

theorem absent_alike {available available' : SortedSet Slot} (same : Alike predicates predicates')
    (there : Alike available available') :
    Alike (absent predicates available) (absent predicates' available') := by
  have read : List.Forall₂ Alike (predicates.toList.flatMap fun p => p.inputSlots.toList)
      (predicates'.toList.flatMap fun p => p.inputSlots.toList) :=
    flatMap_of_forall₂ (SortedSet.alike_iff.1 same) fun _ _ equal =>
      SortedSet.alike_iff.1 (Expr.inputSlots_alike equal)
  refine SortedSet.ofList_alike (filter_of_forall₂ read fun s t slot => ?_)
  rw [SortedSet.contains_eq_of_alike there slot]

theorem completion?_together {available available' : SortedSet Slot}
    (same : Alike predicates predicates') (there : Alike available available') (supply : Supply) :
    Option.Rel SameCompletion (completion? predicates available supply)
      (completion? predicates' available' supply) := by
  obtain ⟨replaced, windows, next⟩ := Expr.replaceAll_together windowStep_together
    (SortedSet.alike_iff.1 same) (s := ⟨[], supply⟩) (t := ⟨[], supply⟩) ⟨.nil, rfl⟩
  have missing := absent_alike same there
  unfold completion?
  simp only [isEmpty_eq_of_forall₂ windows, SortedSet.isEmpty_eq_of_alike missing]
  split
  · exact .none
  · refine .some ⟨SortedSet.extend_alike BEq.rfl replaced, List.rel_append ?_ ?_, next⟩
    · exact map_of_forall₂ windows fun _ _ binding => NamedExpr.alike_iff.2 (.aliased binding)
    · exact map_of_forall₂ (SortedSet.alike_iff.1 missing) fun _ _ slot =>
        NamedExpr.alike_iff.2 (.column slot)

theorem withColumns_alike (same : List.Forall₂ Alike projections projections')
    {slots slots' : List Slot} (columns : List.Forall₂ Alike slots slots') :
    List.Forall₂ Alike (withColumns projections slots) (withColumns projections' slots') := by
  induction columns generalizing projections projections' with
  | nil => exact same
  | @cons s t _ _ slot _ ih =>
    have there : projections.any (fun p => p.slot == s) = projections'.any fun p => p.slot == t :=
      any_eq_of_forall₂ same fun p q equal => by
        rw [BEq.congr_left (NamedExpr.slot_alike equal), BEq.congr_right slot]
    rw [withColumns, withColumns, List.foldl_cons, List.foldl_cons, there]
    split
    · exact ih same
    · exact ih (List.rel_append same (.cons (NamedExpr.alike_iff.2 (.column slot)) .nil))

theorem projectFrame?_together (same : Alike predicates predicates')
    (columns : List.Forall₂ Alike projections projections') (distinct : Bool) (supply : Supply) :
    Option.Rel SameFrame (projectFrame? predicates projections distinct supply)
      (projectFrame? predicates' projections' distinct supply) := by
  have output := slots_alike columns
  refine bind_of_rel (completion?_together same (SortedSet.ofList_alike output) supply) ?_
  intro c d completion
  refine .some ⟨fun p q input => ?_, completion.supply⟩
  have expanded := List.rel_append columns completion.columns
  exact Plan.projectSlots_alike distinct (Plan.unary_alike (.qualify completion.predicates)
    (Plan.unary_alike (.project (alike_list_iff.2 expanded)) input)) output

theorem havingProjectFrame?_together (same : Alike predicates predicates')
    (stated : Alike conditions conditions')
    (columns : List.Forall₂ Alike projections projections') (distinct : Bool) (supply : Supply) :
    Option.Rel SameFrame (havingProjectFrame? predicates conditions projections distinct supply)
      (havingProjectFrame? predicates' conditions' projections' distinct supply) := by
  have output := slots_alike columns
  have available := SortedSet.ofList_alike output
  refine bind_of_rel (completion?_together same available supply) ?_
  intro c d completion
  have expanded := List.rel_append columns completion.columns
  refine .some ⟨?_, completion.supply⟩
  cases distinct with
  | false =>
    intro p q input
    exact Plan.projectSlots_alike false (Plan.unary_alike (.having stated)
      (Plan.unary_alike (.qualify completion.predicates)
        (Plan.unary_alike (.project (alike_list_iff.2 expanded)) input))) output
  | true =>
    intro p q input
    have missing := SortedSet.alike_iff.1 (absent_alike stated available)
    have wider := withColumns_alike expanded missing
    exact Plan.projectSlots_alike true (Plan.unary_alike (.having stated)
      (Plan.projectSlots_alike false (Plan.unary_alike (.qualify completion.predicates)
        (Plan.unary_alike (.project (alike_list_iff.2 wider)) input))
        (List.rel_append output missing))) output

end

structure SameResolution (r t : Resolution) : Prop where
  outputs : List.Forall₂ Alike r.outputs t.outputs
  supply : r.supply = t.supply

section
variable {groupKey groupKey' : List Expr} {outputs outputs' : List NamedExpr}
  {predicates predicates' : Conjuncts}

theorem produces_eq_of_alike (same : List.Forall₂ Alike outputs outputs') {s t : Slot}
    (slot : Alike s t) : produces outputs s = produces outputs' t :=
  any_eq_of_forall₂ same fun _ _ equal => by
    rw [BEq.congr_left (NamedExpr.slot_alike equal), BEq.congr_right slot]

theorem resolveStep_together (keys : List.Forall₂ Alike groupKey groupKey') :
    Expr.StepsTogether SameResolution (resolveStep groupKey) (resolveStep groupKey') := by
  rintro a b ⟨outputs, supply⟩ ⟨outputs', _⟩ equal ⟨same, rfl⟩
  have key := contains_of_alike keys equal
  cases kind : a.isSlot with
  | true =>
    obtain ⟨s, rfl⟩ := Expr.exists_slot_of_isSlot kind
    obtain ⟨t, rfl, id⟩ := Expr.slot_beq_iff.1 equal
    have slot : Alike s t := Slot.beq_iff.2 id
    rw [resolveStep_slot, resolveStep_slot, produces_eq_of_alike same slot, key]
    split
    · exact .some ⟨equal, ⟨same, rfl⟩⟩
    · have added : Alike (NamedExpr.column s) (.column t) := NamedExpr.alike_iff.2 (.column slot)
      exact .some ⟨equal, ⟨List.rel_append same (.cons added .nil), rfl⟩⟩
  | false =>
    have kind' : b.isSlot = false := (Expr.isSlot_eq_of_alike equal).symm.trans kind
    rw [resolveStep_of_not_slot kind, resolveStep_of_not_slot kind', key,
      Expr.isAggregate_eq_of_beq equal]
    rcases cases_of_rel (find?_alike (aliases_alike same) equal) with
      ⟨new, new'⟩ | ⟨x, y, known, known', binding⟩
    · rw [aliasFor?, aliasFor?, new, new']
      simp only
      split
      · have added := freshUnnamed_alike equal supply
        have output := NamedExpr.alike_iff.2 (.aliased added)
        exact .some ⟨Expr.slot_alike (Alias.slot_alike added),
          ⟨List.rel_append same (.cons output .nil), rfl⟩⟩
      · exact .none
    · rw [aliasFor?, aliasFor?, known, known']
      exact .some ⟨Expr.slot_alike (Alias.slot_alike binding), ⟨same, rfl⟩⟩

theorem resolve_together (keys : List.Forall₂ Alike groupKey groupKey')
    (same : Alike predicates predicates') {r t : Resolution} (states : SameResolution r t) :
    Alike (resolve groupKey predicates r).1 (resolve groupKey' predicates' t).1 ∧
      SameResolution (resolve groupKey predicates r).2 (resolve groupKey' predicates' t).2 := by
  obtain ⟨resolved, final⟩ := Expr.replaceAll_together (resolveStep_together keys)
    (SortedSet.alike_iff.1 same) states
  exact ⟨SortedSet.ofList_alike resolved, final⟩

theorem overAggregate_alike (keys : List.Forall₂ Alike groupKey groupKey')
    (columns : List.Forall₂ Alike outputs outputs') {conditions conditions' : Option Conjuncts}
    (stated : Option.Rel Alike conditions conditions') (same : Alike predicates predicates')
    {p q : Plan} (input : Alike p q) :
    Alike (overAggregate groupKey outputs conditions predicates p)
      (overAggregate groupKey' outputs' conditions' predicates' q) := by
  have grouped :=
    Plan.unary_alike (.aggregate (alike_list_iff.2 keys) (alike_list_iff.2 columns)) input
  cases stated with
  | none => exact Plan.unary_alike (.qualify same) grouped
  | some having =>
    exact Plan.unary_alike (.qualify same) (Plan.unary_alike (.having having) grouped)

theorem aggregateFrame?_together (keys : List.Forall₂ Alike groupKey groupKey')
    (columns : List.Forall₂ Alike outputs outputs') {conditions conditions' : Option Conjuncts}
    (stated : Option.Rel Alike conditions conditions') (same : Alike predicates predicates')
    (supply : Supply) :
    Option.Rel SameFrame (aggregateFrame? predicates conditions groupKey outputs supply)
      (aggregateFrame? predicates' conditions' groupKey' outputs' supply) := by
  obtain ⟨resolved, final, next⟩ := resolve_together keys same
    (r := ⟨outputs, supply⟩) (t := ⟨outputs', supply⟩) ⟨columns, rfl⟩
  have still := (BEq.congr_left (c := predicates) resolved).trans (BEq.congr_right same)
  unfold aggregateFrame?
  simp only [columns.length_eq, final.length_eq, still, next]
  split
  · refine .some ⟨fun p q input => ?_, rfl⟩
    exact Plan.projectSlots_alike false (overAggregate_alike keys final stated resolved input)
      (slots_alike columns)
  · split
    · exact .none
    · exact .some ⟨fun p q => overAggregate_alike keys final stated resolved, rfl⟩

end
end Qualify

namespace Plan
open Qualify

structure SameResult (x y : Plan × Supply) : Prop where
  plans : Alike x.1 y.1
  supply : x.2 = y.2

theorem map_frame_together {built built' : Option (Frame × Supply)} {p q : Plan}
    (frames : Option.Rel SameFrame built built') (input : Similar p q) :
    Option.Rel SameResult (built.map fun (frame, supply) => (frame p, supply))
      (built'.map fun (frame, supply) => (frame q, supply)) :=
  map_of_rel frames fun _ _ same => ⟨same.plans p q input.alike, same.supply⟩

theorem completeQualify?_together {p q : Plan} (similar : Similar p q) (supply : Supply) :
    Option.Rel SameResult (p.completeQualify? supply) (q.completeQualify? supply) := by
  cases similar with
  | get | join => exact .none
  | unary operator input =>
    cases operator with
    | project | aggregate | filter | having | limit => exact .none
    | qualify predicates =>
      cases input with
      | get | join => exact .none
      | unary operator input =>
        cases operator with
        | filter | qualify | limit => exact .none
        | project columns =>
          exact map_frame_together
            (projectFrame?_together predicates (alike_list_iff.1 columns) _ supply) input
        | aggregate keys outputs =>
          exact map_frame_together (aggregateFrame?_together (alike_list_iff.1 keys)
            (alike_list_iff.1 outputs) .none predicates supply) input
        | having conditions =>
          cases input with
          | get | join => exact .none
          | unary operator input =>
            cases operator with
            | filter | having | qualify | limit => exact .none
            | project columns =>
              exact map_frame_together (havingProjectFrame?_together predicates conditions
                (alike_list_iff.1 columns) _ supply) input
            | aggregate keys outputs =>
              exact map_frame_together (aggregateFrame?_together (alike_list_iff.1 keys)
                (alike_list_iff.1 outputs) (.some conditions) predicates supply) input

theorem completeRoot_together {p q : Plan} (similar : Similar p q) (supply : Supply) :
    SameResult (p.completeRoot supply) (q.completeRoot supply) :=
  getD_of_rel (completeQualify?_together similar supply) ⟨similar.alike, rfl⟩

end Plan
end QueryPlan

import QueryPlan.Expr.Replacement
import QueryPlan.Plan.Basic

/-!
Completion of a qualify over a projection, with or without a having between the two. Window calls
in the predicates become new columns of the projection, and input columns that the predicates read
are passed through it; a projection on top restores the columns there were before.

A rule does not look at the plan below the projection. What it builds is a frame: the plan as a
function of that input.
-/
namespace QueryPlan

/-- A plan with a hole for an input. -/
abbrev Frame := Plan → Plan

namespace Qualify

structure WindowColumns where
  aliases : List Alias
  supply : Supply

/-- Puts the column of a window call in its place. A call met before keeps its column. -/
def windowStep (e : Expr) (columns : WindowColumns) : Option (Expr × WindowColumns) :=
  if e.isWindow then
    match columns.aliases.find? fun a => a.expr == e with
    | some a => some (.slot a.slot, columns)
    | none =>
      let (a, supply) := Alias.freshUnnamed e columns.supply
      some (.slot a.slot, ⟨columns.aliases ++ [a], supply⟩)
  else none

structure Completion where
  predicates : Conjuncts
  /-- Window columns first, then columns passed through. -/
  columns : List NamedExpr
  supply : Supply

def absent (predicates : Conjuncts) (available : SortedSet Slot) : SortedSet Slot :=
  .ofList ((predicates.toList.flatMap fun p => p.inputSlots.toList).filter fun s =>
    !available.contains s)

/-- What is absent is judged by the predicates as given, so columns read only inside window calls
are passed through too. There is no completion where nothing is missing. -/
def completion? (predicates : Conjuncts) (available : SortedSet Slot) (supply : Supply) :
    Option Completion :=
  let (replaced, windows) := Expr.replaceAll windowStep predicates.toList ⟨[], supply⟩
  let absent := absent predicates available
  if windows.aliases.isEmpty && absent.isEmpty then none
  else
    some ⟨.extend .empty replaced,
      windows.aliases.map .aliased ++ absent.toList.map .column, windows.supply⟩

def withColumns (projections : List NamedExpr) (slots : List Slot) : List NamedExpr :=
  slots.foldl (fun ps s => if ps.any fun p => p.slot == s then ps else ps ++ [.column s])
    projections

/-- Completes a qualify over `project`: under a projection to the columns it has stands the
qualify with the new predicates, over the projection with the new columns. -/
def projectFrame? (predicates : Conjuncts) (projections : List NamedExpr) (distinct : Bool)
    (supply : Supply) : Option (Frame × Supply) := do
  let output := projections.map NamedExpr.slot
  let completion ← completion? predicates (.ofList output) supply
  let expanded := projections ++ completion.columns
  let frame : Frame := fun input =>
    ((input.project expanded false).qualify completion.predicates).projectSlots output distinct
  return (frame, completion.supply)

/-- Completes a qualify over a having with the given `conditions` over `project`. The having moves
above the qualify. For a distinct projection the columns that only the having reads are passed
through as well, and a projection between the having and the qualify keeps them beside the columns
there were. -/
def havingProjectFrame? (predicates conditions : Conjuncts) (projections : List NamedExpr)
    (distinct : Bool) (supply : Supply) : Option (Frame × Supply) := do
  let output := projections.map NamedExpr.slot
  let available := SortedSet.ofList output
  let completion ← completion? predicates available supply
  let expanded := projections ++ completion.columns
  let frame : Frame :=
    if distinct then
      let missing := (absent conditions available).toList
      fun input =>
        ((((input.project (withColumns expanded missing) false).qualify
          completion.predicates).projectSlots (output ++ missing) false).having
          conditions).projectSlots output true
    else
      fun input =>
        (((input.project expanded false).qualify completion.predicates).having
          conditions).projectSlots output false
  return (frame, completion.supply)

end Qualify

namespace Plan

/-- Completes a qualify with the given predicates over the plan, if it is a projection that lacks
columns they need. -/
def completeProject? (predicates : Conjuncts) (supply : Supply) : Plan → Option (Plan × Supply)
  | .project input projections distinct =>
    (Qualify.projectFrame? predicates projections distinct supply).map fun (frame, supply) =>
      (frame input, supply)
  | _ => none

def completeHavingProject? (predicates : Conjuncts) (supply : Supply) :
    Plan → Option (Plan × Supply)
  | .having (.project input projections distinct) conditions =>
    (Qualify.havingProjectFrame? predicates conditions projections distinct supply).map
      fun (frame, supply) => (frame input, supply)
  | _ => none

end Plan
end QueryPlan

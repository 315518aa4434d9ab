import QueryPlan.Analysis.EquivalenceClasses
import QueryPlan.Expr.Conjunction
import QueryPlan.Expr.Replacement

/-!
Predicates that follow from others. Equality propagation adds the equalities between columns of a
class that are not stated, in the direction from the smaller column to the larger, and restates
what is known of one column for the others of its class: from `x = y` and `x = 1` follows `y = 1`.
-/
namespace QueryPlan

/-- Finds predicates that hold wherever all of the given ones hold. -/
abbrev Inference := Conjuncts → Conjuncts

def pairs : List α → List (α × α)
  | [] => []
  | x :: xs => xs.map (x, ·) ++ pairs xs

namespace Inference

def nothing : Inference := fun _ => .empty

def equivalences (predicates : Conjuncts) : List (SortedSet Slot) :=
  (EquivalenceClasses.ofPairs (predicates.toList.filterMap Expr.slotEquality?)).classes

def states (predicates : Conjuncts) (pair : Slot × Slot) : Bool :=
  predicates.contains (.equality pair.1 pair.2) || predicates.contains (.equality pair.2 pair.1)

def missingEqualities (predicates : Conjuncts) (classes : List (SortedSet Slot)) : List Expr :=
  let related := classes.flatMap fun group => pairs group.toList
  (related.filter fun pair => !states predicates pair).map fun pair => .equality pair.1 pair.2

/-- The only column that the predicate reads, if the predicate may be restated for another. -/
def restatable? (predicate : Expr) : Option Slot :=
  if predicate.slotEquality?.isSome || predicate.containsAggregate || predicate.containsWindow ||
      predicate.containsSubquery then none
  else
    match predicate.inputSlots.toList with
    | [slot] => some slot
    | _ => none

def restatements (classes : List (SortedSet Slot)) (predicate : Expr) : List Expr :=
  match restatable? predicate with
  | none => []
  | some slot =>
    match classes.find? fun group => group.contains slot with
    | none => []
    | some group =>
      (group.toList.filter fun other => !(other == slot)).map fun other =>
        predicate.substitute [(.slot slot, .slot other)]

def equality : Inference := fun predicates =>
  let classes := equivalences predicates
  let restated := predicates.toList.flatMap (restatements classes)
  .extend .empty
    (missingEqualities predicates classes ++ restated.filter fun p => !predicates.contains p)

end Inference
end QueryPlan

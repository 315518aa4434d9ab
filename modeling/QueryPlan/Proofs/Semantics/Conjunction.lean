import QueryPlan.Proofs.Expr.Terms
import QueryPlan.Proofs.Semantics.Evaluation

namespace QueryPlan
namespace Expr

def isTruth : Expr → Bool
  | literal (.boolean true) => true
  | _ => false

/-- What hangs on the tree of nested ANDs at the root, from left to right. The tree goes on as far
as there are ANDs, so that none of its leaves is one. -/
def leaves (e : Expr) : List Expr :=
  e.fold fun e parts =>
    match e with
    | variadic .and _ => parts.flatten
    | _ => [e]

theorem leaves_eq (e : Expr) :
    e.leaves =
      match e with
      | variadic .and es => es.flatMap leaves
      | _ => [e] := by
  rw [leaves, fold_eq]
  split <;> rfl

theorem isTruth_iff {e : Expr} : e.isTruth = true ↔ e = trueLiteral := by
  constructor
  · intro truth
    match e, truth with
    | literal (.boolean true), _ => rfl
  · rintro rfl
    rfl

theorem conjuncts_eq_leaves (e : Expr) : e.conjuncts = e.leaves.filter fun p => !p.isTruth := by
  induction e using induct with
  | step e ih =>
    rw [conjuncts_eq, leaves_eq]
    split
    · rename_i es
      rw [List.filter_flatMap]
      exact List.flatMap_congr ih
    · rfl
    · rename_i truth
      have kept : e.isTruth = false := by
        rw [Bool.eq_false_iff]
        exact fun found => truth (isTruth_iff.1 found)
      simp [kept]

theorem conjuncts_andAll (es : List Expr) : (andAll es).conjuncts = es.flatMap conjuncts := by
  match es with
  | [] => rfl
  | [e] => simp [andAll]
  | _ :: _ :: _ => exact conjuncts_eq _

theorem conjuncts_andAll_conjuncts (e : Expr) : (andAll e.conjuncts).conjuncts = e.conjuncts := by
  rw [conjuncts_andAll, flatMap_conjuncts fun p mem => isTerm_of_mem_conjuncts mem]

end Expr

/-- A choice of the expressions that are true, an AND exactly when all its arguments are. -/
structure Truth where
  Holds : Expr → Prop
  literal : Holds .trueLiteral
  and_iff : ∀ es, Holds (.variadic .and es) ↔ ∀ e ∈ es, Holds e

def Interpretation.truth (I : Interpretation) (row : Row) : Truth where
  Holds := I.Holds row
  literal := rfl
  and_iff _ := I.holds_and_iff

theorem Truth.holds_iff_conjuncts (T : Truth) (e : Expr) :
    T.Holds e ↔ ∀ p ∈ e.conjuncts, T.Holds p := by
  induction e using Expr.induct with
  | step e ih =>
    rw [Expr.conjuncts_eq]
    split
    · rename_i es
      rw [T.and_iff, List.forall_mem_flatMap]
      exact forall₂_congr ih
    · simp only [List.not_mem_nil, false_implies, implies_true, iff_true]
      exact T.literal
    · rw [List.forall_mem_singleton]

/-- The last part is that what has been joined and taken apart stays so. -/
theorem Expr.conjuncts_of_nested_ands (e : Expr) :
    e.conjuncts = (e.leaves.filter fun p => !p.isTruth) ∧
      (∀ p ∈ e.conjuncts, (∀ es, p ≠ .variadic .and es) ∧ p ≠ .trueLiteral) ∧
      (∀ T : Truth, T.Holds e ↔ ∀ p ∈ e.conjuncts, T.Holds p) ∧
      ∀ es, (andAll es).conjuncts = es.flatMap conjuncts ∧
        (andAll (andAll es).conjuncts).conjuncts = (andAll es).conjuncts := by
  refine ⟨conjuncts_eq_leaves e, ?_, fun T => T.holds_iff_conjuncts e, ?_⟩
  · intro p mem
    have term := isTerm_of_mem_conjuncts mem
    constructor
    · rintro es rfl
      cases term
    · rintro rfl
      cases term
  · intro es
    exact ⟨conjuncts_andAll es, conjuncts_andAll_conjuncts (andAll es)⟩

end QueryPlan

import QueryPlan.Collection.SortedSet
import QueryPlan.Expr.Datum
import QueryPlan.Expr.Function
import QueryPlan.Slot

/-!
Scalar expressions as trees: `children` lists the immediate subexpressions from left to right,
`withChildren` puts others in their place, and `fold` computes bottom up. What treats all kinds of
nodes alike, here and in later modules, is a fold, and `induct` is the induction to reason about it.
-/
namespace QueryPlan

inductive Expr
  | slot (slot : Slot)
  | literal (value : Datum)
  | unary (func : UnaryFunc) (arg : Expr)
  | binary (func : BinaryFunc) (left right : Expr)
  | variadic (func : VariadicFunc) (args : List Expr)
  | aggregate (func : AggregateFunc) (arg : Expr) (distinct : Bool)
  | window (func : WindowFunc) (args partitionBy orderBy : List Expr)
  /-- A predicate over the rows of the subquery that `handle` stands for. The `correlated` slots
  are the columns of the enclosing query that the subquery reads. -/
  | subquery (kind : SubqueryKind) (handle : UInt64) (args : List Expr) (correlated : List Slot)

namespace Expr

def children : Expr → List Expr
  | slot _ | literal _ => []
  | unary _ a => [a]
  | binary _ a b => [a, b]
  | variadic _ as => as
  | aggregate _ a _ => [a]
  | window _ as ps os => as ++ ps ++ os
  | subquery _ _ as _ => as

/-- The node with other children, as many as it has. A call with a fixed number of arguments stays
as it is when given another number. -/
def withChildren (e : Expr) (children : List Expr) : Expr :=
  match e, children with
  | unary f _, [a] => unary f a
  | binary f _ _, [a, b] => binary f a b
  | variadic f _, as => variadic f as
  | aggregate f _ d, [a] => aggregate f a d
  | window f as ps _, cs =>
    window f (cs.take as.length) ((cs.drop as.length).take ps.length)
      ((cs.drop as.length).drop ps.length)
  | subquery k h _ ss, as => subquery k h as ss
  | e, _ => e

mutual

def fold (f : Expr → List β → β) : Expr → β
  | slot s => f (slot s) []
  | literal d => f (literal d) []
  | unary g a => f (unary g a) [fold f a]
  | binary g a b => f (binary g a b) [fold f a, fold f b]
  | variadic g as => f (variadic g as) (foldList f as)
  | aggregate g a d => f (aggregate g a d) [fold f a]
  | window g as ps os => f (window g as ps os) (foldList f as ++ foldList f ps ++ foldList f os)
  | subquery k h as ss => f (subquery k h as ss) (foldList f as)

def foldList (f : Expr → List β → β) : List Expr → List β
  | [] => []
  | e :: es => fold f e :: foldList f es

end

theorem foldList_eq_map (f : Expr → List β → β) (es : List Expr) :
    foldList f es = es.map (fold f) := by
  induction es with
  | nil => rfl
  | cons e es ih => simp [foldList, ih]

theorem fold_eq (f : Expr → List β → β) (e : Expr) :
    e.fold f = f e (e.children.map (fold f)) := by
  cases e <;> simp [fold, children, foldList_eq_map]

mutual

/-- What holds of a node whenever it holds of its children holds of every expression. -/
theorem induct {P : Expr → Prop} (step : ∀ e, (∀ c ∈ e.children, P c) → P e) : ∀ e, P e
  | slot _ => step _ (by simp [children])
  | literal _ => step _ (by simp [children])
  | unary _ a => step _ (by simpa [children] using induct step a)
  | binary _ a b => step _ (by simpa [children] using ⟨induct step a, induct step b⟩)
  | variadic _ as => step _ (inductList step as)
  | aggregate _ a _ => step _ (by simpa [children] using induct step a)
  | window _ as ps os => step _ (by
      simp only [children, List.mem_append]
      rintro c ((h | h) | h)
      · exact inductList step as c h
      · exact inductList step ps c h
      · exact inductList step os c h)
  | subquery _ _ as _ => step _ (inductList step as)

theorem inductList {P : Expr → Prop} (step : ∀ e, (∀ c ∈ e.children, P c) → P e) :
    ∀ es : List Expr, ∀ c ∈ es, P c
  | [] => by simp
  | e :: es => List.forall_mem_cons.2 ⟨induct step e, inductList step es⟩

end

@[simp] theorem withChildren_children (e : Expr) : e.withChildren e.children = e := by
  cases e <;> simp [withChildren, children]

theorem children_withChildren {e : Expr} {cs : List Expr}
    (h : cs.length = e.children.length) : (e.withChildren cs).children = cs := by
  cases e <;> simp only [children, List.length_nil, List.length_cons, List.length_append] at h
  case slot | literal => simp [withChildren, children, List.eq_nil_of_length_eq_zero h]
  case unary | aggregate =>
    obtain ⟨a, rfl⟩ := List.length_eq_one_iff.1 h
    rfl
  case binary =>
    match cs, h with
    | [_, _], _ => rfl
  case variadic | subquery => rfl
  case window => simp only [withChildren, children, List.append_assoc, List.take_append_drop]

def postorder (e : Expr) : List Expr := e.fold fun e parts => parts.flatten ++ [e]

theorem postorder_eq (e : Expr) : e.postorder = e.children.flatMap postorder ++ [e] := by
  rw [postorder, fold_eq]; rfl

def ownSlots : Expr → List Slot
  | slot s => [s]
  | subquery _ _ _ correlated => correlated
  | _ => []

def isAggregate : Expr → Bool
  | aggregate .. => true
  | _ => false

def isWindow : Expr → Bool
  | window .. => true
  | _ => false

def isSubquery : Expr → Bool
  | subquery .. => true
  | _ => false

def isSlot : Expr → Bool
  | slot _ => true
  | _ => false

/-- The slots read anywhere in the expression; of slots with one id the first in postorder. -/
def inputSlots (e : Expr) : SortedSet Slot := .extend .empty (e.postorder.flatMap ownSlots)

def containsAggregate (e : Expr) : Bool := e.postorder.any isAggregate

def containsWindow (e : Expr) : Bool := e.postorder.any isWindow

def containsSubquery (e : Expr) : Bool := e.postorder.any isSubquery

def isCorrelatedSubquery : Expr → Bool
  | subquery _ _ _ correlated => !correlated.isEmpty
  | _ => false

def slotEquality? : Expr → Option (Slot × Slot)
  | binary .eq (slot a) (slot b) => some (a, b)
  | _ => none

def equality (a b : Slot) : Expr := binary .eq (slot a) (slot b)

end Expr
end QueryPlan

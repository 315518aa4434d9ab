import QueryPlan.Expr.Order

/-!
Conjunctions: joining a list of expressions by AND, taking a tree of nested ANDs apart, and sets
of predicates that hold together. A tree is taken apart by means of a stack, which gives its terms
as recursion would.
-/
namespace QueryPlan

abbrev Conjuncts := SortedSet Expr

namespace Expr

def trueLiteral : Expr := literal (.boolean true)

/-- No expressions make `true`, a single one stands for itself. -/
def andAll : List Expr → Expr
  | [] => trueLiteral
  | [e] => e
  | es => variadic .and es

def size (e : Expr) : Nat := e.fold fun _ parts => sum parts + 1

theorem size_eq (e : Expr) : e.size = sum (e.children.map size) + 1 := by
  rw [size, fold_eq]; rfl

def pushArgs (args todo : List Expr) : List Expr :=
  args.reverse.foldl (fun todo e => e :: todo) todo

theorem pushArgs_eq (args todo : List Expr) : pushArgs args todo = args ++ todo := by
  simp [pushArgs]

/-- Takes expressions from a stack until none is left. An AND that is taken leaves its arguments
there, a literal `true` leaves nothing, and anything else is a term. -/
@[semireducible] def popTerms : List Expr → List Expr
  | [] => []
  | e :: todo =>
    match e with
    | variadic .and args => popTerms (pushArgs args todo)
    | literal (.boolean true) => popTerms todo
    | term => term :: popTerms todo
termination_by todo => sum (todo.map size)
decreasing_by
  all_goals simp only [pushArgs_eq, List.map_append, List.map_cons, sum_cons, sum_append]
  · have := size_eq (variadic .and args)
    simp only [children] at this
    omega
  · have := size_eq (literal (.boolean true))
    omega
  · have := size_eq term
    omega

/-- The terms of nested ANDs from left to right; a literal `true` is no term. -/
def conjuncts (e : Expr) : List Expr := popTerms [e]

theorem popTerms_cons (e : Expr) (todo : List Expr) :
    popTerms (e :: todo) =
      match e with
      | variadic .and args => popTerms (args ++ todo)
      | literal (.boolean true) => popTerms todo
      | _ => e :: popTerms todo := by
  rw [popTerms.eq_def]
  simp only [pushArgs_eq]
  split <;> rfl

theorem popTerms_append (es todo : List Expr) :
    popTerms (es ++ todo) = popTerms es ++ popTerms todo := by
  fun_induction popTerms es with
  | case1 => rfl
  | case2 es args ih =>
    simp only [List.cons_append, popTerms_cons]
    rw [← ih, pushArgs_eq, List.append_assoc]
  | case3 es ih => rw [List.cons_append, popTerms_cons, ih]
  | case4 es e conjunction truth ih =>
    rw [List.cons_append, popTerms_cons, ih]
    split
    · exact (conjunction _ rfl).elim
    · exact (truth rfl).elim
    · rfl

theorem popTerms_eq_flatMap (todo : List Expr) : popTerms todo = todo.flatMap conjuncts := by
  induction todo with
  | nil => rfl
  | cons e todo ih => rw [← List.singleton_append, popTerms_append, ih]; rfl

theorem conjuncts_eq (e : Expr) :
    e.conjuncts =
      match e with
      | variadic .and es => es.flatMap conjuncts
      | literal (.boolean true) => []
      | _ => [e] := by
  rw [conjuncts, popTerms_cons]
  split
  · rw [List.append_nil, popTerms_eq_flatMap]
  · rfl
  · rfl

end Expr
end QueryPlan

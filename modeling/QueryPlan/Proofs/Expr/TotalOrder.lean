import QueryPlan.NamedExpr
import QueryPlan.Proofs.Expr.NameBlind

/-!
The order as a total order for equality up to names. Main statement: of two expressions exactly one
precedes the other unless they are equal, equal ones are the same up to names and stand in the same
place of the order; so a set has one representative of what is equal, and so has the sorted form of
a substitution, which looks up the same.
-/
namespace QueryPlan

def ExactlyOne (p q r : Prop) : Prop :=
  (p ∧ ¬q ∧ ¬r) ∨ (¬p ∧ q ∧ ¬r) ∨ (¬p ∧ ¬q ∧ r)

/-- The order is total for the equality, and that is identity of the bare forms. -/
structure TotalUpToNames [Ord α] [BEq α] (bare : α → α) : Prop where
  one_of_three (a b : α) : ExactlyOne (compare a b = .lt) (a == b) (compare b a = .lt)
  trans {a b c : α} (first : compare a b = .lt) (second : compare b c = .lt) : compare a c = .lt
  compare_eq_iff (a b : α) : compare a b = .eq ↔ a == b
  beq_iff_bare (a b : α) : a == b ↔ bare a = bare b
  congr {a a' b b' : α} (left : a == a') (right : b == b') : compare a b = compare a' b'

section
variable [Ord α] [BEq α] [Std.TransOrd α] [Std.LawfulBEqOrd α]

theorem exactlyOne_compare (a b : α) :
    ExactlyOne (compare a b = .lt) (a == b) (compare b a = .lt) := by
  have greater : compare b a = .lt ↔ compare a b = .gt := Std.OrientedCmp.gt_iff_lt.symm
  rw [← Std.compare_eq_iff_beq, greater]
  cases compare a b <;> simp [ExactlyOne]

theorem totalUpToNames {bare : α → α} (same : ∀ a b : α, a == b ↔ bare a = bare b) :
    TotalUpToNames bare where
  one_of_three := exactlyOne_compare
  trans := Std.TransCmp.lt_trans
  compare_eq_iff _ _ := Std.compare_eq_iff_beq
  beq_iff_bare := same
  congr {a a' b b'} left right := by
    have first : compare a b = compare a' b :=
      Std.TransCmp.congr_left (Std.compare_eq_iff_beq.2 left)
    exact first.trans (Std.TransCmp.congr_right (Std.compare_eq_iff_beq.2 right))

theorem SortedSet.contains_iff_existsUnique {s : SortedSet α} {a : α} :
    s.contains a = true ↔ ∃! b, b ∈ s.toList ∧ a == b := by
  simp only [SortedSet.contains_iff, ← Std.compare_eq_iff_beq]
  constructor
  · rintro ⟨b, mem, same⟩
    exact ⟨b, ⟨mem, same⟩, fun c ⟨memC, sameC⟩ =>
      SortedSet.eq_of_compare memC mem (Std.TransCmp.eq_trans (Std.OrientedCmp.eq_symm sameC) same)⟩
  · rintro ⟨b, both, -⟩
    exact ⟨b, both⟩

end

namespace Alias

def bare (a : Alias) : Alias := ⟨a.slot.bare, a.expr.bare⟩

def key (a : Alias) : List Int := (a.slot.id : Int) :: a.expr.key

theorem compare_def (a b : Alias) :
    compare a b = (compare a.slot b.slot).then (compare a.expr b.expr) := rfl

theorem beq_def (a b : Alias) : (a == b) = (a.slot == b.slot && a.expr == b.expr) := rfl

theorem keyOf : KeyOf key := fun a b r t => by
  simp [key, compare_def, List.compare_cons_cons, compare_natCast, Slot.compare_def,
    Expr.keyOf a.expr, Ordering.then_assoc]

instance : Std.TransOrd Alias := keyOf.transOrd

instance : Std.LawfulBEqOrd Alias where
  compare_eq_iff_beq {a b} := by
    rw [compare_def, beq_def, Ordering.then_eq_eq, Bool.and_eq_true, Std.compare_eq_iff_beq,
      Std.compare_eq_iff_beq]

theorem beq_iff_bare {a b : Alias} : a == b ↔ a.bare = b.bare := by
  simp [beq_def, bare, Slot.bare, Expr.beq_iff_bare]

end Alias

namespace NamedExpr

def bare : NamedExpr → NamedExpr
  | column s => column s.bare
  | aliased a => aliased a.bare

def key : NamedExpr → List Int
  | column s => [0, (s.id : Int)]
  | aliased a => 1 :: a.key

theorem keyOf : KeyOf key := fun a b r t => by
  cases a <;> cases b
  case column.column s s' =>
    have order : compare (column s) (column s') = compare s s' := rfl
    simpa [key, order, List.compare_cons_cons] using KeyOf.slot s s' r t
  case aliased.aliased a b =>
    have order : compare (aliased a) (aliased b) = compare a b := rfl
    simpa [key, order, List.compare_cons_cons] using Alias.keyOf a b r t
  all_goals rfl

instance : Std.TransOrd NamedExpr := keyOf.transOrd

instance : Std.LawfulBEqOrd NamedExpr where
  compare_eq_iff_beq {a b} := by
    cases a <;> cases b
    case column.column => exact Std.compare_eq_iff_beq (α := Slot)
    case aliased.aliased => exact Std.compare_eq_iff_beq (α := Alias)
    all_goals exact iff_of_false (fun same => by cases same) (fun same => by cases same)

theorem beq_iff_bare {a b : NamedExpr} : a == b ↔ a.bare = b.bare := by
  cases a <;> cases b
  case column.column s t =>
    have equality : (column s == column t) = (s == t) := rfl
    simp [equality, bare, Slot.bare]
  case aliased.aliased a b =>
    have equality : (aliased a == aliased b) = (a == b) := rfl
    simp [equality, bare, Alias.beq_iff_bare]
  all_goals exact iff_of_false (fun same => by cases same) (fun same => by cases same)

end NamedExpr

namespace Substitution
variable {m : Substitution} {key value e : Expr}

/-- Binds the key at its place among ascending ones, instead of an equal one. -/
def put (key value : Expr) : Substitution → Substitution
  | [] => [(key, value)]
  | (k, v) :: rest =>
    match compare key k with
    | .lt => (key, value) :: (k, v) :: rest
    | .eq => (key, value) :: rest
    | .gt => (k, v) :: put key value rest

def Ascending (m : Substitution) : Prop := m.Pairwise fun p q => compare p.1 q.1 = .lt

def sorted (m : Substitution) : Substitution := m.foldr (fun pair => put pair.1 pair.2) []

theorem mem_put {pair : Expr × Expr} (mem : pair ∈ put key value m) :
    pair = (key, value) ∨ pair ∈ m := by
  induction m with
  | nil => exact Or.inl (List.mem_singleton.1 mem)
  | cons first rest ih =>
    rw [put] at mem
    split at mem
    · exact List.mem_cons.1 mem
    · exact (List.mem_cons.1 mem).imp_right (List.mem_cons_of_mem _)
    · rcases List.mem_cons.1 mem with rfl | mem
      · exact Or.inr (List.mem_cons_self ..)
      · exact (ih mem).imp_right (List.mem_cons_of_mem _)

theorem ascending_put (ascending : m.Ascending) : (put key value m).Ascending := by
  induction m with
  | nil => exact List.pairwise_singleton ..
  | cons first rest ih =>
    obtain ⟨below, others⟩ := List.pairwise_cons.1 ascending
    rw [put]
    split
    · rename_i less
      refine List.pairwise_cons.2 ⟨List.forall_mem_cons.2 ⟨less, fun pair mem => ?_⟩, ascending⟩
      exact Std.TransCmp.lt_trans less (below pair mem)
    · rename_i same
      refine List.pairwise_cons.2 ⟨fun pair mem => ?_, others⟩
      rw [Std.TransCmp.congr_left same]
      exact below pair mem
    · rename_i greater
      refine List.pairwise_cons.2 ⟨fun pair mem => ?_, ih others⟩
      rcases mem_put mem with rfl | old
      · exact Std.OrientedCmp.gt_iff_lt.1 greater
      · exact below pair old

theorem lookup_pair_cons {pair : Expr × Expr} :
    List.lookup e (pair :: m) = if e == pair.1 then some pair.2 else m.lookup e := by
  rw [List.lookup_cons]
  cases e == pair.1 <;> rfl

theorem lookup_put : (put key value m).lookup e = if e == key then some value else m.lookup e := by
  induction m with
  | nil => exact lookup_pair_cons
  | cons first rest ih =>
    rw [put]
    split
    · exact lookup_pair_cons
    · rename_i same
      have keys : (e == first.1) = (e == key) :=
        (BEq.congr_right (Expr.beq_iff_compare.2 same)).symm
      rw [lookup_pair_cons, lookup_pair_cons, keys]
      split <;> rfl
    · rename_i greater
      rw [lookup_pair_cons, lookup_pair_cons, ih]
      -- Nothing equals both keys, so it does not matter which is asked for first.
      cases there : e == first.1 with
      | false => rfl
      | true =>
        have other : (e == key) = false := by
          rw [BEq.congr_left there, Bool.eq_false_iff]
          intro same
          rw [Std.OrientedCmp.gt_iff_lt, Expr.beq_iff_compare.1 same] at greater
          cases greater
        rw [other]
        rfl

theorem ascending_sorted (m : Substitution) : m.sorted.Ascending := by
  induction m with
  | nil => exact .nil
  | cons first rest ih => exact ascending_put ih

theorem lookup_sorted (m : Substitution) (e : Expr) : m.sorted.lookup e = m.lookup e := by
  induction m with
  | nil => rfl
  | cons first rest ih =>
    rw [lookup_pair_cons, ← ih]
    exact lookup_put

theorem substitute_sorted (m : Substitution) (e : Expr) :
    e.substitute m.sorted = e.substitute m := by
  induction e using Expr.induct with
  | step e ih =>
    rw [Expr.substitute_eq, Expr.substitute_eq e, lookup_sorted, List.map_congr_left ih]

end Substitution

/-- The orders of expressions and of output columns are total for equality up to names, so there is
one representative of what is equal in a set and among the keys of a substitution. -/
theorem order_total_up_to_names :
    TotalUpToNames Expr.bare ∧ TotalUpToNames NamedExpr.bare ∧
      (∀ (s : Conjuncts) (e : Expr), s.contains e = true ↔ ∃! f, f ∈ s.toList ∧ e == f) ∧
      (∀ m : Substitution, m.sorted.Ascending ∧ ∀ e : Expr,
        m.sorted.lookup e = m.lookup e ∧ e.substitute m.sorted = e.substitute m ∧
          ∀ f, e == f → m.lookup e = m.lookup f) :=
  ⟨totalUpToNames fun _ _ => Expr.beq_iff_bare, totalUpToNames fun _ _ => NamedExpr.beq_iff_bare,
    fun _ _ => SortedSet.contains_iff_existsUnique,
    fun m => ⟨m.ascending_sorted, fun e => ⟨m.lookup_sorted e, m.substitute_sorted e,
      fun _ equal => Expr.lookup_eq_of_beq equal m⟩⟩⟩

namespace OrderSample

def named (a b c : String) : Expr :=
  .window .rowNumber [] [.slot ⟨1, a⟩]
    [.aggregate .sum (.slot ⟨2, b⟩) true, .subquery .existence 7 [] [⟨3, c⟩]]

end OrderSample

open OrderSample in
theorem order_total_up_to_names_renamed :
    named "x" "y" "z" == named "u" "v" "w" ∧
      compare (named "x" "y" "z") (named "u" "v" "w") = .eq ∧
      (∀ e, compare (named "x" "y" "z") e = compare (named "u" "v" "w") e) ∧
      ∀ m : Substitution, m.lookup (named "x" "y" "z") = m.lookup (named "u" "v" "w") := by
  obtain ⟨total, -, -, maps⟩ := order_total_up_to_names
  have equal : named "x" "y" "z" == named "u" "v" "w" := (total.beq_iff_bare _ _).2 rfl
  exact ⟨equal, (total.compare_eq_iff _ _).2 equal, fun e => total.congr equal BEq.rfl,
    fun m => ((maps m).2 _).2.2 _ equal⟩

end QueryPlan

import QueryPlan.Analysis.EquivalenceClasses
import QueryPlan.Expr.Conjunction
import QueryPlan.Proofs.Expr.Reading

/-!
Values of expressions on a row, whatever the functions compute. Main statements: what is computed
from the values of children is the same for equal expressions, the value depends only on the columns
read, and substitution keeps it when each replacement has the value of what it replaces. Where an
AND is true of all its arguments true and of nothing else, a conjunction holds exactly when all its
conjuncts do.
-/
namespace QueryPlan

namespace Expr

/-- The value of a node depends on its function and the values of its children: that of a column on
its identifier, and that of a subquery also on the values of the columns it is correlated with. -/
structure Compositional (value : Expr → V) : Prop where
  slot {s t : Slot} (same : s.id = t.id) : value (.slot s) = value (.slot t)
  node (e : Expr) (cs : List Expr) (parts : cs.map value = e.children.map value) :
    value (e.withChildren cs) = value e
  subquery (k : SubqueryKind) (h : UInt64) (as : List Expr) (ss ts : List Slot)
    (same : ss.map (fun s => value (.slot s)) = ts.map fun t => value (.slot t)) :
    value (.subquery k h as ss) = value (.subquery k h as ts)

namespace Compositional
variable {value : Expr → V}

theorem bareNode (compositional : Compositional value) (e : Expr) :
    value e.bareNode = value e := by
  cases e with
  | slot s => exact compositional.slot rfl
  | subquery k h as ss =>
    refine compositional.subquery k h as _ ss ?_
    rw [List.map_map]
    exact List.map_congr_left fun s _ => compositional.slot rfl
  | _ => rfl

theorem bare (compositional : Compositional value) (e : Expr) : value e.bare = value e := by
  induction e using induct with
  | step e ih =>
    have parts : (e.children.map Expr.bare).map value = e.bareNode.children.map value := by
      rw [List.map_map, children_bareNode]
      exact List.map_congr_left ih
    rw [bare_eq, compositional.node _ _ parts, compositional.bareNode]

theorem eq_of_beq (compositional : Compositional value) {a b : Expr} (equal : (a == b) = true) :
    value a = value b := by
  rw [← compositional.bare a, bare_eq_of_beq equal, compositional.bare]

end Compositional
end Expr

abbrev Row := SlotId → Datum

def AgreeOn (columns : List Slot) (a b : Row) : Prop := ∀ s ∈ columns, a s.id = b s.id

theorem AgreeOn.eq {columns : List Slot} {a b : Row} (agree : AgreeOn columns a b) {id : SlotId}
    (mem : id ∈ columns.map Slot.id) : a id = b id := by
  obtain ⟨s, found, rfl⟩ := List.mem_map.1 mem
  exact agree s found

structure Functions where
  unary : UnaryFunc → Datum → Datum
  binary : BinaryFunc → Datum → Datum → Datum
  variadic : VariadicFunc → List Datum → Datum
  aggregate : AggregateFunc → Datum → Bool → Datum
  window : WindowFunc → (args partitionBy orderBy : List Datum) → Datum
  subquery : SubqueryKind → UInt64 → (args correlated : List Datum) → Datum

namespace Functions
variable {F : Functions} {row row' : Row}

/-- The value of a node from the values of its children; the last case is for values that are not
as many as the children. -/
def apply (F : Functions) (row : Row) : Expr → List Datum → Datum
  | .slot s, _ => row s.id
  | .literal d, _ => d
  | .unary f _, [x] => F.unary f x
  | .binary f _ _, [x, y] => F.binary f x y
  | .variadic f _, xs => F.variadic f xs
  | .aggregate f _ d, [x] => F.aggregate f x d
  | .window f as ps _, xs =>
    F.window f (xs.take as.length) ((xs.drop as.length).take ps.length)
      ((xs.drop as.length).drop ps.length)
  | .subquery k h _ ss, xs => F.subquery k h xs (ss.map fun s => row s.id)
  | _, _ => .null

def eval (F : Functions) (row : Row) (e : Expr) : Datum := e.fold (F.apply row)

def Holds (F : Functions) (row : Row) (e : Expr) : Prop := F.eval row e = .boolean true

instance (e : Expr) : Decidable (F.Holds row e) :=
  inferInstanceAs (Decidable (F.eval row e = .boolean true))

theorem eval_eq (e : Expr) : F.eval row e = F.apply row e (e.children.map (F.eval row)) :=
  Expr.fold_eq (F.apply row) e

theorem apply_withChildren {e : Expr} {cs : List Expr} (len : cs.length = e.children.length)
    (own : ∀ s ∈ e.ownSlots, row' s.id = row s.id) (values : List Datum) :
    F.apply row' (e.withChildren cs) values = F.apply row e values := by
  cases e with
  | slot s => exact own s (List.mem_singleton_self s)
  | literal d => rfl
  | unary f a | aggregate f a d =>
    obtain ⟨c, rfl⟩ := List.length_eq_one_iff.1 len
    rcases values with _ | ⟨x, _ | ⟨y, values⟩⟩ <;> rfl
  | binary f a b =>
    match cs, len with
    | [c, d], _ => rcases values with _ | ⟨x, _ | ⟨y, _ | ⟨z, values⟩⟩⟩ <;> rfl
  | variadic f as => rfl
  | window f as ps os =>
    simp only [Expr.children, List.length_append] at len
    have args : (cs.take as.length).length = as.length := by rw [List.length_take]; omega
    have partitions : ((cs.drop as.length).take ps.length).length = ps.length := by
      rw [List.length_take, List.length_drop]; omega
    simp only [Expr.withChildren, apply, args, partitions]
  | subquery k h as ss =>
    have slots : ss.map (fun s => row' s.id) = ss.map (fun s => row s.id) :=
      List.map_congr_left own
    simp only [Expr.withChildren, apply, slots]

theorem eval_withChildren {e : Expr} {cs : List Expr}
    (own : ∀ s ∈ e.ownSlots, row' s.id = row s.id)
    (parts : cs.map (F.eval row') = e.children.map (F.eval row)) :
    F.eval row' (e.withChildren cs) = F.eval row e := by
  have len : cs.length = e.children.length := by simpa using congrArg List.length parts
  rw [eval_eq, Expr.children_withChildren len, apply_withChildren len own, parts, ← eval_eq]

theorem eval_congr {columns : List Slot} (agree : AgreeOn columns row' row) {e : Expr}
    (within : e.Within columns) : F.eval row' e = F.eval row e := by
  induction e using Expr.induct with
  | step e ih =>
    obtain ⟨own, below⟩ := Expr.within_iff.1 within
    have parts : e.children.map (F.eval row') = e.children.map (F.eval row) :=
      List.map_congr_left fun c child => ih c child (below c child)
    simpa using eval_withChildren (fun s mem => agree.eq (own s mem)) parts

theorem holds_congr {columns : List Slot} (agree : AgreeOn columns row' row) {e : Expr}
    (within : e.Within columns) : F.Holds row' e ↔ F.Holds row e := by
  rw [Holds, Holds, eval_congr agree within]

theorem compositional (F : Functions) (row : Row) : Expr.Compositional (F.eval row) where
  slot same := congrArg row same
  node _ _ parts := eval_withChildren (fun _ _ => rfl) parts
  subquery k h as ss ts same := by
    have slots : ss.map (fun s => row s.id) = ts.map (fun s => row s.id) := same
    rw [eval_eq, eval_eq (.subquery k h as ts)]
    exact congrArg (F.subquery k h (as.map (F.eval row))) slots

theorem eval_eq_of_beq {a b : Expr} (h : (a == b) = true) : F.eval row a = F.eval row b :=
  (F.compositional row).eq_of_beq h

theorem eval_substitute {map : Substitution} {columns : List Slot}
    (same : ∀ pair ∈ map, F.eval row' pair.2 = F.eval row pair.1)
    (agree : AgreeOn columns row' row) {e : Expr} (within : e.Within columns) :
    F.eval row' (e.substitute map) = F.eval row e := by
  induction e using Expr.induct with
  | step e ih =>
    obtain ⟨own, below⟩ := Expr.within_iff.1 within
    rw [Expr.substitute_eq]
    cases found : map.lookup e with
    | some value =>
      obtain ⟨key, mem, equal⟩ := mem_of_lookup found
      rw [Option.getD_some, same _ mem, eval_eq_of_beq equal]
    | none =>
      rw [Option.getD_none]
      apply eval_withChildren fun s mem => agree.eq (own s mem)
      rw [List.map_map]
      exact List.map_congr_left fun c child => ih c child (below c child)

end Functions

/-- Nothing is known of the functions but when an AND is true. -/
structure Interpretation extends Functions where
  and_true : ∀ args, variadic .and args = .boolean true ↔ ∀ d ∈ args, d = .boolean true

namespace Interpretation
variable {I : Interpretation} {row : Row}

theorem holds_and_iff {es : List Expr} :
    I.Holds row (.variadic .and es) ↔ ∀ e ∈ es, I.Holds row e := by
  rw [Functions.Holds, Functions.eval_eq]
  refine (I.and_true _).trans ?_
  simp only [Expr.children, List.forall_mem_map, Functions.Holds]

theorem holds_andAll_iff {es : List Expr} :
    I.Holds row (.andAll es) ↔ ∀ e ∈ es, I.Holds row e := by
  match es with
  | [] => exact ⟨fun _ _ mem => absurd mem List.not_mem_nil, fun _ => rfl⟩
  | [e] => simp [Expr.andAll]
  | _ :: _ :: _ => exact holds_and_iff

theorem holds_of_mem_conjuncts {e p : Expr} (holds : I.Holds row e) (mem : p ∈ e.conjuncts) :
    I.Holds row p := by
  induction e using Expr.induct with
  | step e ih =>
    rw [Expr.conjuncts_eq] at mem
    split at mem
    · rename_i es
      obtain ⟨term, child, sub⟩ := List.mem_flatMap.1 mem
      exact ih term child (holds_and_iff.1 holds term child) sub
    · cases mem
    · exact List.mem_singleton.1 mem ▸ holds

end Interpretation
end QueryPlan

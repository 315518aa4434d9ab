import QueryPlan.Expr.Replacement

namespace QueryPlan

def Slot.bare (s : Slot) : Slot := ⟨s.id, ""⟩

theorem Slot.bare_eq_of_compare {s t : Slot} (h : compare s t = .eq) : s.bare = t.bare := by
  rw [bare, bare, compare_eq_iff.1 h]

namespace Expr

def bareNode : Expr → Expr
  | slot s => slot s.bare
  | subquery k h as ss => subquery k h as (ss.map Slot.bare)
  | e => e

def bare (e : Expr) : Expr := e.fold fun e parts => e.bareNode.withChildren parts

theorem bare_eq (e : Expr) : e.bare = e.bareNode.withChildren (e.children.map bare) := by
  rw [bare, fold_eq]
  rfl

theorem children_bareNode (e : Expr) : e.bareNode.children = e.children := by
  cases e <;> rfl

@[simp] theorem children_bare (e : Expr) : e.bare.children = e.children.map bare := by
  rw [bare_eq, children_withChildren (by simp [children_bareNode])]

theorem bare_unary (f : UnaryFunc) (a : Expr) : (unary f a).bare = unary f a.bare :=
  bare_eq (unary f a)

theorem bare_binary (f : BinaryFunc) (a b : Expr) :
    (binary f a b).bare = binary f a.bare b.bare := bare_eq (binary f a b)

theorem bare_variadic (f : VariadicFunc) (as : List Expr) :
    (variadic f as).bare = variadic f (as.map bare) := bare_eq (variadic f as)

theorem bare_aggregate (f : AggregateFunc) (a : Expr) (d : Bool) :
    (aggregate f a d).bare = aggregate f a.bare d := bare_eq (aggregate f a d)

theorem bare_window (f : WindowFunc) (as ps os : List Expr) :
    (window f as ps os).bare = window f (as.map bare) (ps.map bare) (os.map bare) := by
  rw [bare_eq]
  simp [bareNode, withChildren, children]

theorem bare_subquery (k : SubqueryKind) (h : UInt64) (as : List Expr) (ss : List Slot) :
    (subquery k h as ss).bare = subquery k h (as.map bare) (ss.map Slot.bare) :=
  bare_eq (subquery k h as ss)

theorem slots_bare_eq_of_compare {ss ts : List Slot} (h : compare ss ts = .eq) :
    ss.map Slot.bare = ts.map Slot.bare := by
  induction ss generalizing ts with
  | nil =>
    cases ts with
    | nil => rfl
    | cons t ts => cases h
  | cons s ss ih =>
    cases ts with
    | nil => cases h
    | cons t ts =>
      rw [List.compare_cons_cons, Ordering.then_eq_eq] at h
      rw [List.map_cons, List.map_cons, Slot.bare_eq_of_compare h.1, ih h.2]

theorem list_bare_eq_of_compare {as bs : List Expr}
    (ih : ∀ a ∈ as, ∀ b, compare a b = .eq → a.bare = b.bare)
    (h : compareList as bs = .eq) : as.map bare = bs.map bare := by
  induction as generalizing bs with
  | nil =>
    cases bs with
    | nil => rfl
    | cons b bs => cases h
  | cons a as rest =>
    cases bs with
    | nil => cases h
    | cons b bs =>
      obtain ⟨first, others⟩ := List.forall_mem_cons.1 ih
      rw [compareList, Ordering.then_eq_eq] at h
      rw [List.map_cons, List.map_cons, first b h.1, rest others h.2]

theorem bare_eq_of_compare {a b : Expr} (h : compare a b = .eq) : a.bare = b.bare := by
  induction a using induct generalizing b with
  | step a ih =>
    cases a <;> cases b
    case slot.slot s t =>
      exact congrArg slot (Slot.bare_eq_of_compare h)
    case literal.literal d e =>
      rw [Datum.compare_eq_iff.1 h]
    case unary.unary f a g b =>
      obtain ⟨func, arg⟩ := Ordering.then_eq_eq.1 h
      rw [bare_unary, bare_unary, UnaryFunc.compare_eq_iff.1 func,
        ih a (by simp [children]) arg]
    case binary.binary f a b g c d =>
      obtain ⟨func, args⟩ := Ordering.then_eq_eq.1 h
      obtain ⟨left, right⟩ := Ordering.then_eq_eq.1 args
      rw [bare_binary, bare_binary, BinaryFunc.compare_eq_iff.1 func,
        ih a (by simp [children]) left, ih b (by simp [children]) right]
    case variadic.variadic f as g bs =>
      obtain ⟨func, args⟩ := Ordering.then_eq_eq.1 h
      rw [bare_variadic, bare_variadic, VariadicFunc.compare_eq_iff.1 func,
        list_bare_eq_of_compare (fun a mem _ => ih a (by simpa [children] using mem)) args]
    case aggregate.aggregate f a d g b e =>
      obtain ⟨func, rest⟩ := Ordering.then_eq_eq.1 h
      obtain ⟨arg, distinct⟩ := Ordering.then_eq_eq.1 rest
      rw [bare_aggregate, bare_aggregate, AggregateFunc.compare_eq_iff.1 func,
        ih a (by simp [children]) arg, Std.LawfulEqOrd.eq_of_compare distinct]
    case window.window f as ps os g bs qs rs =>
      obtain ⟨func, rest⟩ := Ordering.then_eq_eq.1 h
      obtain ⟨args, rest⟩ := Ordering.then_eq_eq.1 rest
      obtain ⟨partitions, orders⟩ := Ordering.then_eq_eq.1 rest
      rw [bare_window, bare_window, WindowFunc.compare_eq_iff.1 func,
        list_bare_eq_of_compare (fun a mem _ => ih a (by simp [children, mem])) args,
        list_bare_eq_of_compare (fun a mem _ => ih a (by simp [children, mem])) partitions,
        list_bare_eq_of_compare (fun a mem _ => ih a (by simp [children, mem])) orders]
    case subquery.subquery k i as ss l j bs ts =>
      obtain ⟨kind, rest⟩ := Ordering.then_eq_eq.1 h
      obtain ⟨handle, rest⟩ := Ordering.then_eq_eq.1 rest
      obtain ⟨args, correlated⟩ := Ordering.then_eq_eq.1 rest
      rw [bare_subquery, bare_subquery, SubqueryKind.compare_eq_iff.1 kind,
        list_bare_eq_of_compare (fun a mem _ => ih a (by simpa [children] using mem)) args,
        slots_bare_eq_of_compare correlated, Std.LawfulEqOrd.eq_of_compare handle]
    all_goals cases h

instance : ReflBEq Expr where
  rfl := beq_iff_compare.2 Std.ReflCmp.compare_self

theorem bare_eq_of_beq {a b : Expr} (h : (a == b) = true) : a.bare = b.bare :=
  bare_eq_of_compare (beq_iff_compare.1 h)

theorem isSlot_bare (e : Expr) : e.bare.isSlot = e.isSlot := by
  rw [bare_eq, isSlot_withChildren]
  cases e <;> rfl

theorem isAggregate_withChildren (e : Expr) (cs : List Expr) :
    (e.withChildren cs).isAggregate = e.isAggregate := by
  unfold withChildren
  split <;> rfl

theorem isAggregate_bare (e : Expr) : e.bare.isAggregate = e.isAggregate := by
  rw [bare_eq, isAggregate_withChildren]
  cases e <;> rfl

theorem isAggregate_eq_of_beq {a b : Expr} (h : (a == b) = true) :
    a.isAggregate = b.isAggregate := by
  rw [← isAggregate_bare a, bare_eq_of_beq h, isAggregate_bare]

theorem weight_bare (e : Expr) : e.bare.weight = e.weight := by
  induction e using induct with
  | step e ih =>
    have parts : e.children.map (weight ∘ bare) = e.children.map weight :=
      List.map_congr_left ih
    rw [weight_eq, weight_eq e, isSlot_bare, children_bare, List.map_map, parts]

theorem weight_eq_of_beq {a b : Expr} (h : (a == b) = true) : a.weight = b.weight := by
  rw [← weight_bare a, bare_eq_of_beq h, weight_bare]

theorem postorder_bare (e : Expr) : e.bare.postorder = e.postorder.map bare := by
  induction e using induct with
  | step e ih =>
    have parts : e.children.map (postorder ∘ bare) = e.children.map (List.map bare ∘ postorder) :=
      List.map_congr_left ih
    rw [postorder_eq, postorder_eq e, children_bare, List.map_append, List.flatMap_def,
      List.map_map, parts, List.flatMap_def, List.map_flatten, List.map_map]
    rfl

theorem any_postorder_eq_of_beq {root : Expr → Bool}
    (parts : ∀ e cs, root (e.withChildren cs) = root e) (node : ∀ e, root e.bareNode = root e)
    {a b : Expr} (h : (a == b) = true) : a.postorder.any root = b.postorder.any root := by
  have blind (e : Expr) : e.bare.postorder.any root = e.postorder.any root := by
    rw [postorder_bare, List.any_map]
    exact List.any_congr rfl fun part => by rw [Function.comp_apply, bare_eq, parts, node]
  rw [← blind a, bare_eq_of_beq h, blind]

theorem containsAggregate_eq_of_beq {a b : Expr} (h : (a == b) = true) :
    a.containsAggregate = b.containsAggregate :=
  any_postorder_eq_of_beq isAggregate_withChildren (fun e => by cases e <;> rfl) h

end Expr
end QueryPlan

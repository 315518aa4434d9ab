import QueryPlan.Analysis.Inference
import QueryPlan.Proofs.Analysis.EquivalenceClasses
import QueryPlan.Proofs.Expr.Renaming

/-!
What equality propagation finds. Main statement: exactly the equalities that follow from those given
and are not stated in either direction, and the predicates on a single column restated for every
other column linked to it. One pass finds all: over the predicates with what it has found it finds
nothing more, and turning equalities around changes nothing.
-/
namespace QueryPlan
namespace Expr

theorem equality_beq_iff {a b : Slot} {e : Expr} :
    (equality a b == e) = true ↔ ∃ c d, e = equality c d ∧ a.id = c.id ∧ b.id = d.id := by
  constructor
  · intro equal
    have same := beq_iff_compare.1 equal
    cases e
    case binary g c d =>
      obtain ⟨func, args⟩ := Ordering.then_eq_eq.1 same
      obtain ⟨left, right⟩ := Ordering.then_eq_eq.1 args
      obtain ⟨x, rfl, first⟩ := slot_beq_iff.1 (beq_iff_compare.2 left)
      obtain ⟨y, rfl, second⟩ := slot_beq_iff.1 (beq_iff_compare.2 right)
      cases BinaryFunc.rank_inj.1 (Nat.compare_eq_eq.1 func)
      exact ⟨x, y, rfl, first, second⟩
    all_goals cases same
  · rintro ⟨c, d, rfl, left, right⟩
    have first : (slot a == slot c) = true := slot_beq_iff.2 ⟨c, rfl, left⟩
    have second : (slot b == slot d) = true := slot_beq_iff.2 ⟨d, rfl, right⟩
    exact withChildren_beq (e := equality a b) rfl (.cons first (.cons second .nil))

theorem slotEquality?_eq_some_iff {e : Expr} {pair : Slot × Slot} :
    e.slotEquality? = some pair ↔ e = equality pair.1 pair.2 := by
  constructor
  · intro stated
    unfold slotEquality? at stated
    split at stated
    · cases stated
      rfl
    · cases stated
  · rintro rfl
    rfl

theorem slotEquality?_eq_none_iff {e : Expr} :
    e.slotEquality? = none ↔ ∀ a b, e ≠ equality a b := by
  constructor
  · rintro none a b rfl
    cases none
  · intro other
    cases stated : e.slotEquality? with
    | none => rfl
    | some pair => exact (other _ _ (slotEquality?_eq_some_iff.1 stated)).elim

theorem slotEquality?_rename {e : Expr} {s t : Slot} (other : e.slotEquality? = none) :
    (e.rename s t).slotEquality? = none := by
  rw [slotEquality?_eq_none_iff] at other ⊢
  intro a b same
  cases kind : e.isSlot with
  | true =>
    rw [← isSlot_rename (s := s) (t := t), same] at kind
    cases kind
  | false =>
    -- Renaming leaves the root, so both sides were slots before.
    rw [actsOnSlots_rename s t e kind] at same
    cases e <;> try cases same
    case binary f c d =>
      obtain ⟨rfl, left, right⟩ := binary.inj same
      have before {x : Expr} {y : Slot} (renamed : x.rename s t = slot y) : ∃ z, x = slot z :=
        exists_slot_of_isSlot ((isSlot_rename x).symm.trans (congrArg isSlot renamed))
      obtain ⟨x, rfl⟩ := before left
      obtain ⟨y, rfl⟩ := before right
      exact other x y rfl

theorem slotEquality?_of_beq {a b : Expr} (equal : (a == b) = true)
    (other : a.slotEquality? = none) : b.slotEquality? = none := by
  rw [slotEquality?_eq_none_iff] at other ⊢
  rintro c d rfl
  obtain ⟨x, y, rfl, _⟩ := equality_beq_iff.1 (BEq.symm equal)
  exact other x y rfl

end Expr

theorem mem_pairs_iff [Ord α] [Std.TransOrd α] {xs : List α} (ascending : Ascending xs) {x y : α} :
    (x, y) ∈ pairs xs ↔ x ∈ xs ∧ y ∈ xs ∧ compare x y = .lt := by
  induction xs with
  | nil => simp [pairs]
  | cons z zs ih =>
    obtain ⟨below, rest⟩ := List.pairwise_cons.1 ascending
    rw [pairs, List.mem_append, List.mem_map, ih rest, List.mem_cons, List.mem_cons]
    constructor
    · rintro (⟨w, mem, same⟩ | ⟨left, right, less⟩)
      · cases same
        exact ⟨Or.inl rfl, Or.inr mem, below _ mem⟩
      · exact ⟨Or.inr left, Or.inr right, less⟩
    · have self : compare z z = .eq := Std.ReflCmp.compare_self
      rintro ⟨rfl | left, rfl | right, less⟩
      · rw [self] at less
        cases less
      · exact Or.inl ⟨y, right, rfl⟩
      · have more := Std.OrientedCmp.gt_iff_lt.2 (below x left)
        rw [less] at more
        cases more
      · exact Or.inr ⟨left, right, less⟩

namespace Inference

/-- A chain of stated equalities between columns joins the two. -/
def Linked (predicates : Conjuncts) : SlotId → SlotId → Prop :=
  Relation.EqvGen fun a b =>
    ∃ s t : Slot, predicates.contains (.equality s t) = true ∧ s.id = a ∧ t.id = b

/-- What follows from the predicates along equalities of columns and is not among them. -/
inductive Propagated (predicates : Conjuncts) : Expr → Prop
  | equality {a b : Slot} (linked : Linked predicates a.id b.id) (less : a.id < b.id)
      (new : predicates.contains (.equality a b) = false)
      (new' : predicates.contains (.equality b a) = false) :
      Propagated predicates (.equality a b)
  | restatement {p : Expr} {s t : Slot} (given : predicates.contains p = true)
      (other : p.slotEquality? = none) (aggregates : p.containsAggregate = false)
      (windows : p.containsWindow = false) (subqueries : p.containsSubquery = false)
      (just : p.ReadsJust s.id) (linked : Linked predicates t.id s.id) (differ : t.id ≠ s.id)
      (new : predicates.contains (p.rename s t) = false) :
      Propagated predicates (p.rename s t)

variable {predicates : Conjuncts}

theorem contains_iff_beq {e : Expr} :
    predicates.contains e = true ↔ ∃ p ∈ predicates.toList, (e == p) = true := by
  simp only [SortedSet.contains_iff, Expr.beq_iff_compare]

theorem contains_beq {a b : Expr} (equal : (a == b) = true) :
    predicates.contains a = predicates.contains b :=
  SortedSet.contains_congr (Expr.beq_iff_compare.1 equal)

theorem Linked.lift {more : Conjuncts} (links : ∀ s t : Slot,
    predicates.contains (.equality s t) = true → Linked more s.id t.id) {a b : SlotId}
    (linked : Linked predicates a b) : Linked more a b := by
  induction linked with
  | rel a b link =>
    obtain ⟨s, t, stated, rfl, rfl⟩ := link
    exact links s t stated
  | refl a => exact .refl a
  | symm a b _ ih => exact ih.symm
  | trans a b c _ _ first second => exact first.trans _ _ _ second

theorem linked_iff_connected {a b : SlotId} :
    Linked predicates a b ↔ Connected (predicates.toList.filterMap Expr.slotEquality?) a b := by
  constructor
  · apply Relation.EqvGen.mono
    rintro a b ⟨s, t, stated, rfl, rfl⟩
    obtain ⟨e, mem, equal⟩ := contains_iff_beq.1 stated
    obtain ⟨c, d, rfl, left, right⟩ := Expr.equality_beq_iff.1 equal
    exact ⟨(c, d), List.mem_filterMap.2 ⟨_, mem, rfl⟩, left.symm, right.symm⟩
  · apply Relation.EqvGen.mono
    rintro a b ⟨pair, mem, left, right⟩
    obtain ⟨e, stated, shape⟩ := List.mem_filterMap.1 mem
    cases Expr.slotEquality?_eq_some_iff.1 shape
    exact ⟨pair.1, pair.2, SortedSet.contains_of_mem stated, left, right⟩

theorem exists_equivalence_iff {s t : Slot} (differ : s.id ≠ t.id) :
    (∃ group ∈ equivalences predicates, group.contains s = true ∧ group.contains t = true) ↔
      Linked predicates s.id t.id := by
  rw [linked_iff_connected]
  exact (EquivalenceClasses.represents_ofPairs _).exists_class_iff differ

theorem restatable?_eq_some_iff {p : Expr} {s : Slot} :
    restatable? p = some s ↔
      p.slotEquality? = none ∧ p.containsAggregate = false ∧ p.containsWindow = false ∧
        p.containsSubquery = false ∧ p.inputSlots.toList = [s] := by
  rw [restatable?]
  split
  · rename_i barred
    refine iff_of_false nofun ?_
    rintro ⟨other, aggregates, windows, subqueries, _⟩
    rw [other, aggregates, windows, subqueries] at barred
    cases barred
  · rename_i admitted
    simp only [Bool.or_eq_true, not_or, Bool.not_eq_true, Option.isSome_eq_false_iff,
      Option.isNone_iff_eq_none] at admitted
    obtain ⟨⟨⟨other, aggregates⟩, windows⟩, subqueries⟩ := admitted
    simp only [other, aggregates, windows, subqueries, true_and]
    split
    · rename_i t slots
      rw [slots, List.cons.injEq, Option.some_inj]
      exact (and_iff_left rfl).symm
    · rename_i several
      exact iff_of_false nofun (several s)

theorem propagated_of_missing {e : Expr}
    (mem : e ∈ missingEqualities predicates (equivalences predicates)) :
    Propagated predicates e := by
  obtain ⟨⟨a, b⟩, found, rfl⟩ := List.mem_map.1 mem
  obtain ⟨related, unstated⟩ := List.mem_filter.1 found
  obtain ⟨group, inside, pair⟩ := List.mem_flatMap.1 related
  obtain ⟨left, right, less⟩ := (mem_pairs_iff group.ascending).1 pair
  have less : a.id < b.id := Nat.compare_eq_lt.1 less
  simp only [states, Bool.not_eq_true', Bool.or_eq_false_iff] at unstated
  refine .equality ?_ less unstated.1 unstated.2
  exact (exists_equivalence_iff (Nat.ne_of_lt less)).1
    ⟨group, inside, SortedSet.contains_of_mem left, SortedSet.contains_of_mem right⟩

theorem propagated_of_restated {p e : Expr} (given : p ∈ predicates.toList)
    (mem : e ∈ restatements (equivalences predicates) p)
    (new : predicates.contains e = false) : Propagated predicates e := by
  rw [restatements] at mem
  split at mem
  · cases mem
  · rename_i s allowed
    split at mem
    · cases mem
    · rename_i group found
      obtain ⟨t, other, rfl⟩ := List.mem_map.1 mem
      obtain ⟨inside, differ⟩ := List.mem_filter.1 other
      have differ : t.id ≠ s.id := by
        simpa only [Bool.not_eq_true', beq_eq_false_iff_ne, Bool.eq_false_iff, ne_eq,
          Slot.beq_iff] using differ
      obtain ⟨shape, aggregates, windows, subqueries, slots⟩ := restatable?_eq_some_iff.1 allowed
      have here : group.contains s = true := by simpa using List.find?_some found
      have linked : Linked predicates t.id s.id := (exists_equivalence_iff differ).1
        ⟨group, List.mem_of_find?_eq_some found, SortedSet.contains_of_mem inside, here⟩
      have just : p.ReadsJust s.id := congrArg (List.map Slot.id) slots
      exact .restatement (SortedSet.contains_of_mem given) shape aggregates windows subqueries just
        linked differ new

theorem exists_missing {a b : Slot} (linked : Linked predicates a.id b.id) (less : a.id < b.id)
    (new : predicates.contains (.equality a b) = false)
    (new' : predicates.contains (.equality b a) = false) :
    ∃ e ∈ missingEqualities predicates (equivalences predicates),
      (Expr.equality a b == e) = true := by
  obtain ⟨group, inside, left, right⟩ := (exists_equivalence_iff (Nat.ne_of_lt less)).2 linked
  obtain ⟨c, memC, sameC⟩ := SortedSet.contains_iff.1 left
  obtain ⟨d, memD, sameD⟩ := SortedSet.contains_iff.1 right
  rw [Slot.compare_eq_iff] at sameC sameD
  have equal : (Expr.equality a b == .equality c d) = true :=
    Expr.equality_beq_iff.2 ⟨c, d, rfl, sameC, sameD⟩
  have equal' : (Expr.equality b a == .equality d c) = true :=
    Expr.equality_beq_iff.2 ⟨d, c, rfl, sameD, sameC⟩
  have unstated : states predicates (c, d) = false := by
    rw [states, ← contains_beq equal, ← contains_beq equal', new, new', Bool.or_self]
  have pair : (c, d) ∈ pairs group.toList := by
    refine (mem_pairs_iff group.ascending).2 ⟨memC, memD, ?_⟩
    rw [sameC, sameD] at less
    exact Nat.compare_eq_lt.2 less
  refine ⟨_, List.mem_map_of_mem (List.mem_filter.2 ⟨List.mem_flatMap.2 ⟨group, inside, pair⟩, ?_⟩),
    equal⟩
  rw [unstated]
  rfl

theorem exists_restated {p : Expr} {s t : Slot} (given : predicates.contains p = true)
    (other : p.slotEquality? = none) (aggregates : p.containsAggregate = false)
    (windows : p.containsWindow = false) (subqueries : p.containsSubquery = false)
    (just : p.ReadsJust s.id) (linked : Linked predicates t.id s.id) (differ : t.id ≠ s.id) :
    ∃ q ∈ predicates.toList, ∃ e ∈ restatements (equivalences predicates) q,
      (p.rename s t == e) = true := by
  obtain ⟨q, mem, equal⟩ := contains_iff_beq.1 given
  obtain ⟨s', slots, id⟩ : ∃ s', q.inputSlots.toList = [s'] ∧ s'.id = s.id :=
    List.map_eq_singleton_iff.1 ((Expr.readsJust_iff_of_beq equal).1 just)
  have allowed : restatable? q = some s' := by
    refine restatable?_eq_some_iff.2 ⟨Expr.slotEquality?_of_beq equal other, ?_, ?_, ?_, slots⟩
    · rw [← Expr.containsAggregate_eq_of_beq equal, aggregates]
    · rw [← Expr.containsWindow_eq_of_beq equal, windows]
    · rw [← Expr.containsSubquery_eq_of_beq equal, subqueries]
  obtain ⟨group, inside, hasT, hasS⟩ := (exists_equivalence_iff differ).2 linked
  have slot : compare s s' = .eq := Slot.compare_eq_iff.2 id.symm
  -- The first class with the column need not be `group`, but has the same members.
  obtain ⟨first, found⟩ : ∃ first, (equivalences predicates).find? (fun g => g.contains s') =
      some first := by
    rw [← Option.isSome_iff_exists, List.find?_isSome]
    exact ⟨group, inside, SortedSet.contains_congr slot ▸ hasS⟩
  have here : first.contains s = true := by
    rw [SortedSet.contains_congr slot]
    simpa using List.find?_some found
  have there : first.contains t = true :=
    (EquivalenceClasses.contains_class_iff (List.mem_of_find?_eq_some found) here).2
      ((EquivalenceClasses.contains_class_iff inside hasS).1 hasT)
  obtain ⟨t', memT, sameT⟩ := SortedSet.contains_iff.1 there
  rw [Slot.compare_eq_iff] at sameT
  have apart : (!(t' == s')) = true := by
    rw [Bool.not_eq_true', Bool.eq_false_iff, ne_eq, Slot.beq_iff, ← sameT, id]
    exact differ
  refine ⟨q, mem, q.rename s' t', ?_, ?_⟩
  · rw [restatements, allowed]
    simp only [found]
    exact List.mem_map_of_mem (List.mem_filter.2 ⟨memT, apart⟩)
  · exact BEq.trans (Expr.substitute_beq equal _) (Expr.rename_beq id.symm sameT q)

theorem contains_equality_iff {e : Expr} :
    (equality predicates).contains e = true ↔
      ∃ found, Propagated predicates found ∧ (e == found) = true := by
  rw [equality, SortedSet.contains_extend, SortedSet.contains_empty, Bool.false_or,
    List.any_append, Bool.or_eq_true, List.any_eq_true, List.any_eq_true]
  simp only [beq_iff_eq, ← Expr.beq_iff_compare, List.mem_filter, List.mem_flatMap,
    Bool.not_eq_true']
  constructor
  · rintro (⟨found, mem, equal⟩ | ⟨found, ⟨⟨p, given, mem⟩, new⟩, equal⟩)
    · exact ⟨found, propagated_of_missing mem, equal⟩
    · exact ⟨found, propagated_of_restated given mem new, equal⟩
  · rintro ⟨found, follows, equal⟩
    cases follows with
    | equality linked less new new' =>
      obtain ⟨e', mem, same⟩ := exists_missing linked less new new'
      exact Or.inl ⟨e', mem, BEq.trans equal same⟩
    | restatement given other aggregates windows subqueries just linked differ new =>
      obtain ⟨p, mem, e', restated, same⟩ :=
        exists_restated given other aggregates windows subqueries just linked differ
      rw [contains_beq same] at new
      exact Or.inr ⟨e', ⟨⟨p, mem, restated⟩, new⟩, BEq.trans equal same⟩

theorem Propagated.new {e : Expr} (follows : Propagated predicates e) :
    predicates.contains e = false := by
  cases follows with
  | equality _ _ new => exact new
  | restatement _ _ _ _ _ _ _ _ new => exact new

theorem contains_of_propagated {e : Expr} (follows : Propagated predicates e) :
    (equality predicates).contains e = true :=
  contains_equality_iff.2 ⟨e, follows, BEq.rfl⟩

theorem linked_of_closed {a b : SlotId}
    (linked : Linked (predicates.extend (equality predicates).toList) a b) :
    Linked predicates a b := by
  refine linked.lift fun s t stated => ?_
  rw [SortedSet.contains_union, Bool.or_eq_true] at stated
  rcases stated with given | inferred
  · exact .rel _ _ ⟨s, t, given, rfl, rfl⟩
  · obtain ⟨found, follows, equal⟩ := contains_equality_iff.1 inferred
    cases follows with
    | equality linked =>
      obtain ⟨c, d, shape, left, right⟩ := Expr.equality_beq_iff.1 equal
      cases shape
      rw [left, right]
      exact linked
    | restatement given other =>
      have shape := Expr.slotEquality?_of_beq (BEq.symm equal) (Expr.slotEquality?_rename other)
      cases shape

theorem Propagated.rename {e : Expr} {s t : Slot} (follows : Propagated predicates e)
    (other : e.slotEquality? = none) (just : e.ReadsJust s.id)
    (linked : Linked predicates t.id s.id) (new : predicates.contains (e.rename s t) = false) :
    ∃ found, Propagated predicates found ∧ (e.rename s t == found) = true := by
  cases follows with
  | equality => cases other
  | @restatement p s' t' given shape aggregates windows subqueries before chain =>
    have same : t'.id = s.id := by
      have after := Expr.readsJust_rename (t := t') subqueries before
      rw [Expr.ReadsJust, just] at after
      exact (List.singleton_inj.1 after).symm
    have once := Expr.rename_rename_beq (u := t) (Expr.readsJust_iff.1 before).1 same
    have linked : Linked predicates t.id s'.id := linked.trans _ _ _ (same ▸ chain)
    rw [contains_beq once] at new
    by_cases back : t.id = s'.id
    · rw [contains_beq (Expr.rename_self_beq (Expr.readsJust_iff.1 before).1 back), given] at new
      cases new
    · exact ⟨_, .restatement given shape aggregates windows subqueries before linked back new, once⟩

theorem not_propagated_closed (e : Expr) :
    ¬ Propagated (predicates.extend (equality predicates).toList) e := by
  have absent {x : Expr}
      (new : (predicates.extend (equality predicates).toList).contains x = false) :
      predicates.contains x = false ∧ ¬ Propagated predicates x := by
    rw [SortedSet.contains_union, Bool.or_eq_false_iff] at new
    refine ⟨new.1, fun follows => ?_⟩
    rw [contains_of_propagated follows] at new
    cases new.2
  intro follows
  cases follows with
  | equality linked less new new' =>
    exact (absent new).2 (.equality (linked_of_closed linked) less (absent new).1 (absent new').1)
  | @restatement p s t given other aggregates windows subqueries just linked differ new =>
    have linked := linked_of_closed linked
    rw [SortedSet.contains_union, Bool.or_eq_true] at given
    rcases given with given | inferred
    · exact (absent new).2 (.restatement given other aggregates windows subqueries just linked
        differ (absent new).1)
    · obtain ⟨found, follows, equal⟩ := contains_equality_iff.1 inferred
      have again : (p.rename s t == found.rename s t) = true := Expr.substitute_beq equal _
      obtain ⟨x, follows', same⟩ := follows.rename (Expr.slotEquality?_of_beq equal other)
        ((Expr.readsJust_iff_of_beq equal).1 just) linked
        (by rw [← contains_beq again]; exact (absent new).1)
      rw [contains_beq (BEq.trans again same)] at new
      exact (absent new).2 follows'

theorem equality_closed (predicates : Conjuncts) :
    (equality (predicates.extend (equality predicates).toList)).toList = [] := by
  refine SortedSet.toList_eq_nil fun e => Bool.eq_false_iff.2 fun there => ?_
  obtain ⟨found, follows, _⟩ := contains_equality_iff.1 there
  exact not_propagated_closed found follows

/-- The same equalities between columns, perhaps turned around, and the same other predicates. -/
structure SameUpToSides (first second : Conjuncts) : Prop where
  equalities : ∀ pair, states first pair = states second pair
  others : ∀ e : Expr, e.slotEquality? = none → first.contains e = second.contains e

section
variable {first second : Conjuncts}

theorem SameUpToSides.symm (same : SameUpToSides first second) : SameUpToSides second first where
  equalities pair := (same.equalities pair).symm
  others e other := (same.others e other).symm

theorem SameUpToSides.linked (same : SameUpToSides first second) {a b : SlotId}
    (linked : Linked first a b) : Linked second a b := by
  refine linked.lift fun s t stated => ?_
  have sides := same.equalities (s, t)
  rw [states, stated, Bool.true_or] at sides
  rcases Bool.or_eq_true_iff.1 sides.symm with kept | turned
  · exact .rel _ _ ⟨s, t, kept, rfl, rfl⟩
  · exact .symm _ _ (.rel _ _ ⟨t, s, turned, rfl, rfl⟩)

theorem SameUpToSides.propagated (same : SameUpToSides first second) {e : Expr}
    (follows : Propagated first e) : Propagated second e := by
  cases follows with
  | @equality a b linked less new new' =>
    have sides := same.equalities (a, b)
    rw [states, new, new', Bool.or_self] at sides
    obtain ⟨still, still'⟩ := Bool.or_eq_false_iff.1 sides.symm
    exact .equality (same.linked linked) less still still'
  | restatement given other aggregates windows subqueries just linked differ new =>
    rw [same.others _ other] at given
    rw [same.others _ (Expr.slotEquality?_rename other)] at new
    exact .restatement given other aggregates windows subqueries just (same.linked linked) differ
      new

theorem SameUpToSides.equality_beq (same : SameUpToSides first second) :
    (equality first == equality second) = true := by
  refine SortedSet.beq_of_contains fun e => ?_
  rw [Bool.eq_iff_iff, contains_equality_iff, contains_equality_iff]
  constructor
  · rintro ⟨found, follows, equal⟩
    exact ⟨found, same.propagated follows, equal⟩
  · rintro ⟨found, follows, equal⟩
    exact ⟨found, same.symm.propagated follows, equal⟩

end

def turned (e : Expr) : Expr :=
  match e.slotEquality? with
  | some (a, b) => .equality b a
  | none => e

/-- The predicates with the chosen ones among the equalities turned around. -/
def turn (chosen : Expr → Bool) (predicates : Conjuncts) : Conjuncts :=
  .ofList (predicates.toList.map fun p => if chosen p then turned p else p)

theorem contains_turn_iff {chosen : Expr → Bool} {e : Expr} :
    (turn chosen predicates).contains e = true ↔
      ∃ p ∈ predicates.toList, (e == if chosen p then turned p else p) = true := by
  rw [turn, SortedSet.contains_ofList, List.any_map, List.any_eq_true]
  simp only [Function.comp_apply, beq_iff_eq, Expr.beq_iff_compare]

theorem turned_cases (p : Expr) :
    (turned p = p ∧ p.slotEquality? = none) ∨
      ∃ a b, p = .equality a b ∧ turned p = .equality b a := by
  rw [turned]
  split
  · rename_i a b stated
    exact Or.inr ⟨a, b, Expr.slotEquality?_eq_some_iff.1 stated, rfl⟩
  · rename_i other
    exact Or.inl ⟨rfl, other⟩

theorem equality_beq_comm {a b c d : Slot}
    (equal : (Expr.equality a b == .equality c d) = true) :
    (Expr.equality b a == .equality d c) = true := by
  obtain ⟨x, y, shape, left, right⟩ := Expr.equality_beq_iff.1 equal
  cases shape
  exact Expr.equality_beq_iff.2 ⟨d, c, rfl, right, left⟩

theorem sides_turned {s t : Slot} {p : Expr} :
    ((Expr.equality s t == turned p) = true ∨ (Expr.equality t s == turned p) = true) ↔
      ((Expr.equality s t == p) = true ∨ (Expr.equality t s == p) = true) := by
  rcases turned_cases p with ⟨same, _⟩ | ⟨a, b, rfl, same⟩
  · rw [same]
  · rw [same]
    constructor
    · intro side
      exact side.symm.imp equality_beq_comm equality_beq_comm
    · intro side
      exact side.symm.imp equality_beq_comm equality_beq_comm

theorem beq_turned {e p : Expr} (other : e.slotEquality? = none) :
    (e == turned p) = true ↔ (e == p) = true := by
  rcases turned_cases p with ⟨same, _⟩ | ⟨a, b, rfl, same⟩
  · rw [same]
  · have differ {c d : Slot} : ¬ (e == .equality c d) = true := by
      intro equal
      cases Expr.slotEquality?_of_beq equal other
    rw [same]
    exact iff_of_false differ differ

theorem sameUpToSides_turn (chosen : Expr → Bool) (predicates : Conjuncts) :
    SameUpToSides (turn chosen predicates) predicates where
  equalities pair := by
    rw [states, states, Bool.eq_iff_iff, Bool.or_eq_true, Bool.or_eq_true, contains_turn_iff,
      contains_turn_iff, contains_iff_beq, contains_iff_beq, ← exists_or, ← exists_or]
    refine exists_congr fun p => ?_
    rw [← and_or_left, ← and_or_left]
    refine and_congr_right fun _ => ?_
    split
    · exact sides_turned
    · exact Iff.rfl
  others e other := by
    rw [Bool.eq_iff_iff, contains_turn_iff, contains_iff_beq]
    refine exists_congr fun p => and_congr_right fun _ => ?_
    split
    · exact beq_turned other
    · exact Iff.rfl

/-- Exactly what follows is found, and nothing that is given; over the predicates with what was
found nothing is found; and it does not matter which way around equalities are stated. -/
theorem equality_exact (predicates : Conjuncts) :
    (∀ e, (equality predicates).contains e = true ↔
        ∃ found, Propagated predicates found ∧ (e == found) = true) ∧
      (∀ e, ((equality predicates).contains e && predicates.contains e) = false) ∧
      (equality (predicates.extend (equality predicates).toList)).toList = [] ∧
      ∀ chosen, (equality (turn chosen predicates) == equality predicates) = true := by
  refine ⟨fun e => contains_equality_iff, fun e => ?_, equality_closed predicates,
    fun chosen => (sameUpToSides_turn chosen predicates).equality_beq⟩
  cases there : (equality predicates).contains e with
  | false => rfl
  | true =>
    obtain ⟨found, follows, equal⟩ := contains_equality_iff.1 there
    rw [contains_beq equal, follows.new]
    rfl

end Inference
end QueryPlan

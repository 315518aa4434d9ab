import Mathlib.Data.List.Induction
import Mathlib.Logic.Relation
import QueryPlan.Analysis.EquivalenceClasses
import QueryPlan.Proofs.Membership

/-!
Classes of connected columns. Main statement: however many pairs have been connected, two columns
have one representative exactly when a chain of the pairs leads from one to the other; so two
different columns are in one class exactly when such a chain joins them.
-/
namespace QueryPlan

/-- A chain of the pairs, each taken in either direction, joins the two columns. -/
def Connected (pairs : List (Slot × Slot)) : SlotId → SlotId → Prop :=
  Relation.EqvGen fun a b => ∃ pair ∈ pairs, pair.1.id = a ∧ pair.2.id = b

def Occurs (pairs : List (Slot × Slot)) (id : SlotId) : Prop :=
  ∃ pair ∈ pairs, pair.1.id = id ∨ pair.2.id = id

section
variable {pairs more : List (Slot × Slot)} {a b : SlotId}

theorem Connected.mono (sub : pairs ⊆ more) (joined : Connected pairs a b) :
    Connected more a b :=
  Relation.EqvGen.mono (fun _ _ ⟨pair, mem, ids⟩ => ⟨pair, sub mem, ids⟩) _ _ joined

theorem Connected.value_eq {v : SlotId → β}
    (agrees : ∀ pair ∈ pairs, v pair.1.id = v pair.2.id) (joined : Connected pairs a b) :
    v a = v b := by
  induction joined with
  | rel a b link =>
    obtain ⟨pair, mem, rfl, rfl⟩ := link
    exact agrees pair mem
  | refl a => rfl
  | symm a b _ ih => exact ih.symm
  | trans a b c _ _ first second => exact first.trans second

theorem Connected.eq_or_occurs (joined : Connected pairs a b) :
    a = b ∨ (Occurs pairs a ∧ Occurs pairs b) := by
  induction joined with
  | rel a b link =>
    obtain ⟨pair, mem, left, right⟩ := link
    exact Or.inr ⟨⟨pair, mem, Or.inl left⟩, ⟨pair, mem, Or.inr right⟩⟩
  | refl a => exact Or.inl rfl
  | symm a b _ ih => exact ih.imp Eq.symm And.symm
  | trans a b c _ _ first second =>
    rcases first with rfl | first
    · exact second
    · rcases second with rfl | second
      · exact Or.inr first
      · exact Or.inr ⟨first.1, second.2⟩

end

theorem lookup_slot_congr {s t : Slot} (same : s.id = t.id) (links : List (Slot × β)) :
    links.lookup s = links.lookup t := by
  induction links with
  | nil => rfl
  | cons link rest ih =>
    have key : (s == link.1) = (t == link.1) := by
      rw [Bool.eq_iff_iff, Slot.beq_iff, Slot.beq_iff, same]
    rw [List.lookup_cons, List.lookup_cons, key, ih]

namespace EquivalenceClasses

section
variable {c : EquivalenceClasses} {s t p : Slot}

theorem find_of_parent (link : c.parent? s = some p) : c.find s = c.find p := by
  rw [find]
  split
  · rename_i q found
    rw [link] at found
    cases found
    rfl
  · rename_i none
    rw [link] at none
    cases none

theorem find_of_root (root : c.parent? s = none) : c.find s = s := by
  rw [find]
  split
  · rename_i q found
    rw [root] at found
    cases found
  · rfl

theorem id_find_congr (same : s.id = t.id) : (c.find s).id = (c.find t).id := by
  have links : c.parent? s = c.parent? t := lookup_slot_congr same c.parents
  cases found : c.parent? t with
  | some p => rw [find_of_parent found, find_of_parent (links.trans found)]
  | none => rw [find_of_root found, find_of_root (links.trans found), same]

theorem parent?_find (c : EquivalenceClasses) (s : Slot) : c.parent? (c.find s) = none := by
  fun_induction find c s with
  | case1 s p link ih => exact ih
  | case2 s root => exact root

theorem find_find (c : EquivalenceClasses) (s : Slot) : c.find (c.find s) = c.find s :=
  find_of_root (parent?_find c s)

theorem id_find_link {d : EquivalenceClasses} {upper lower : Slot}
    (root : c.parent? upper = none) (root' : c.parent? lower = none) (less : lower.id < upper.id)
    (links : d.parents = (upper, lower) :: c.parents) (s : Slot) :
    (d.find s).id = if (c.find s).id = upper.id then lower.id else (c.find s).id := by
  have moved (s : Slot) (same : s.id = upper.id) : d.parent? s = some lower := by
    rw [parent?, links, List.lookup_cons, Slot.beq_iff.2 same]
  have others (s : Slot) (differ : s.id ≠ upper.id) : d.parent? s = c.parent? s := by
    have key : (s == upper) = false := Bool.eq_false_iff.2 fun same => differ (Slot.beq_iff.1 same)
    rw [parent?, links, List.lookup_cons, key]
    rfl
  have still : d.find lower = lower := by
    apply find_of_root
    rw [others lower (Nat.ne_of_lt less), root']
  induction h : s.id using Nat.strongRecOn generalizing s with
  | ind k ih =>
    cases found : c.parent? s with
    | none =>
      rw [find_of_root found]
      by_cases same : s.id = upper.id
      · rw [find_of_parent (moved s same), still, if_pos same]
      · rw [find_of_root ((others s same).trans found), if_neg same]
    | some p =>
      have differ : s.id ≠ upper.id := by
        intro same
        rw [parent?, lookup_slot_congr same] at found
        rw [parent?, found] at root
        cases root
      rw [find_of_parent found, find_of_parent ((others s differ).trans found)]
      exact ih p.id (h ▸ parent?_lt found) p rfl

/-- The two representatives become the smaller of them, and all others stay. -/
theorem id_find_connect (c : EquivalenceClasses) (a b s : Slot) :
    ((c.connect a b).find s).id =
      if (c.find s).id = max (c.find a).id (c.find b).id then min (c.find a).id (c.find b).id
      else (c.find s).id := by
  have root := parent?_find c a
  have root' := parent?_find c b
  rcases Nat.lt_trichotomy (c.find a).id (c.find b).id with lt | same | gt
  · have links : (c.connect a b).parents = (c.find b, c.find a) :: c.parents := by
      simp only [connect, dif_pos lt]
    rw [id_find_link root' root lt links, Nat.max_eq_right (Nat.le_of_lt lt),
      Nat.min_eq_left (Nat.le_of_lt lt)]
  · have links : (c.connect a b).parents = c.parents := by
      simp only [connect, same, Nat.lt_irrefl, dif_neg, not_false_iff]
    have still : ((c.connect a b).find s).id = (c.find s).id := by
      fun_induction find c s with
      | case1 s p link ih =>
        rw [find_of_parent (p := p), ih]
        rwa [parent?, links]
      | case2 s root =>
        rw [find_of_root]
        rwa [parent?, links]
    rw [still, same, Nat.max_self, Nat.min_self]
    split
    · assumption
    · rfl
  · have links : (c.connect a b).parents = (c.find a, c.find b) :: c.parents := by
      simp only [connect, dif_neg (Nat.lt_asymm gt), dif_pos gt]
    rw [id_find_link root root' gt links, Nat.max_eq_left (Nat.le_of_lt gt),
      Nat.min_eq_right (Nat.le_of_lt gt)]

end

structure Represents (c : EquivalenceClasses) (pairs : List (Slot × Slot)) : Prop where
  same_iff : ∀ s t : Slot, (c.find s).id = (c.find t).id ↔ Connected pairs s.id t.id
  members : ∀ s : Slot, c.members.contains s = true ↔ Occurs pairs s.id

theorem represents_empty : Represents empty [] where
  same_iff s t := by
    have still (s : Slot) : empty.find s = s := find_of_root rfl
    rw [still, still]
    constructor
    · intro same
      exact same ▸ Relation.EqvGen.refl _
    · intro joined
      rcases joined.eq_or_occurs with same | ⟨⟨_, mem, _⟩, _⟩
      · exact same
      · cases mem
  members s := by
    refine iff_of_false Bool.false_ne_true ?_
    rintro ⟨_, mem, _⟩
    cases mem

section
variable {c : EquivalenceClasses} {pairs : List (Slot × Slot)} {s t : Slot}

theorem Represents.joins_find (repr : Represents c pairs) (s : Slot) :
    Connected pairs s.id (c.find s).id :=
  (repr.same_iff s (c.find s)).1 (by rw [find_find])

theorem Represents.connect (repr : Represents c pairs) (a b : Slot) :
    Represents (c.connect a b) (pairs ++ [(a, b)]) where
  same_iff s t := by
    have old {x y : SlotId} (joined : Connected pairs x y) : Connected (pairs ++ [(a, b)]) x y :=
      joined.mono (List.subset_append_left ..)
    have new : Connected (pairs ++ [(a, b)]) a.id b.id :=
      .rel _ _ ⟨(a, b), List.mem_append_right _ (List.mem_singleton_self _), rfl, rfl⟩
    have roots : Connected (pairs ++ [(a, b)]) (c.find a).id (c.find b).id :=
      .trans _ _ _ (.symm _ _ (old (repr.joins_find a)))
        (.trans _ _ _ new (old (repr.joins_find b)))
    have ends (s : Slot) : Connected (pairs ++ [(a, b)]) s.id ((c.connect a b).find s).id := by
      refine .trans _ _ _ (old (repr.joins_find s)) ?_
      rw [id_find_connect]
      split
      · rename_i moved
        rw [moved]
        rcases Nat.le_total (c.find a).id (c.find b).id with le | le
        · rw [Nat.max_eq_right le, Nat.min_eq_left le]
          exact roots.symm
        · rw [Nat.max_eq_left le, Nat.min_eq_right le]
          exact roots
      · exact .refl _
    constructor
    · intro same
      exact .trans _ _ _ (ends s) (same ▸ .symm _ _ (ends t))
    · intro joined
      have respects {s t : Slot} (same : (c.find s).id = (c.find t).id) :
          ((c.connect a b).find s).id = ((c.connect a b).find t).id := by
        rw [id_find_connect, id_find_connect, same]
      have agrees : ∀ pair ∈ pairs ++ [(a, b)],
          ((c.connect a b).find pair.1).id = ((c.connect a b).find pair.2).id := by
        intro pair mem
        rcases List.mem_append.1 mem with earlier | last
        · exact respects ((repr.same_iff _ _).2 (.rel _ _ ⟨pair, earlier, rfl, rfl⟩))
        · rw [List.mem_singleton.1 last, id_find_connect, id_find_connect]
          rcases Nat.le_total (c.find a).id (c.find b).id with le | le
          · rw [Nat.max_eq_right le, Nat.min_eq_left le, if_pos rfl]
            split <;> rfl
          · rw [Nat.max_eq_left le, Nat.min_eq_right le, if_pos rfl]
            split <;> rfl
      -- The representative is a matter of the identifier alone.
      have unnamed (s : Slot) :
          ((c.connect a b).find ⟨s.id, ""⟩).id = ((c.connect a b).find s).id := id_find_congr rfl
      have same := joined.value_eq (v := fun id => ((c.connect a b).find ⟨id, ""⟩).id)
        fun pair mem => by rw [unnamed, unnamed, agrees pair mem]
      rwa [unnamed, unnamed] at same
  members s := by
    have stored : (c.connect a b).members = (c.members.insert a).insert b := by
      simp only [EquivalenceClasses.connect]
      split
      · rfl
      · split <;> rfl
    rw [stored, SortedSet.contains_insert, SortedSet.contains_insert, Bool.or_eq_true,
      Bool.or_eq_true, repr.members, beq_iff_eq, beq_iff_eq, Slot.compare_eq_iff,
      Slot.compare_eq_iff]
    simp only [Occurs, List.mem_append, List.mem_singleton, or_and_right, exists_or,
      exists_eq_left]
    constructor
    · rintro (same | same | earlier)
      · exact Or.inr (Or.inr same.symm)
      · exact Or.inr (Or.inl same.symm)
      · exact Or.inl earlier
    · rintro (earlier | same | same)
      · exact Or.inr (Or.inr earlier)
      · exact Or.inr (Or.inl same.symm)
      · exact Or.inl same.symm

theorem represents_ofPairs (pairs : List (Slot × Slot)) : Represents (ofPairs pairs) pairs := by
  induction pairs using List.reverseRecOn with
  | nil => exact represents_empty
  | append_singleton pairs pair ih =>
    have last : ofPairs (pairs ++ [pair]) = (ofPairs pairs).connect pair.1 pair.2 := by
      rw [ofPairs, List.foldl_append]
      rfl
    rw [last]
    exact ih.connect pair.1 pair.2

theorem contains_classOf {root : Slot} :
    (c.classOf root).contains s = true ↔
      c.members.contains s = true ∧ (c.find s).id = root.id := by
  simp only [SortedSet.contains_iff, classOf, SortedSet.toList_filter, List.mem_filter,
    Slot.beq_iff, Slot.compare_eq_iff]
  constructor
  · rintro ⟨t, ⟨mem, linked⟩, same⟩
    exact ⟨⟨t, mem, same⟩, (id_find_congr same).trans linked⟩
  · rintro ⟨⟨t, mem, same⟩, linked⟩
    exact ⟨t, ⟨mem, (id_find_congr same.symm).trans linked⟩, same⟩

theorem mem_classes_iff {group : SortedSet Slot} :
    group ∈ c.classes ↔ ∃ root ∈ c.members.toList,
      (c.find root).id = root.id ∧ c.classOf root = group ∧ 1 < group.size := by
  simp only [classes, List.mem_filter, List.mem_map, decide_eq_true_eq, Slot.beq_iff]
  constructor
  · rintro ⟨⟨root, ⟨mem, still⟩, same⟩, large⟩
    exact ⟨root, mem, still, same, large⟩
  · rintro ⟨root, mem, still, same, large⟩
    exact ⟨⟨root, ⟨mem, still⟩, same⟩, large⟩

theorem contains_class_iff {group : SortedSet Slot} (mem : group ∈ c.classes)
    (inside : group.contains s = true) :
    group.contains t = true ↔ c.members.contains t = true ∧ (c.find t).id = (c.find s).id := by
  obtain ⟨root, _, _, rfl, _⟩ := mem_classes_iff.1 mem
  rw [contains_classOf, (contains_classOf.1 inside).2]

theorem one_lt_size {group : SortedSet Slot} (left : group.contains s = true)
    (right : group.contains t = true) (differ : s.id ≠ t.id) : 1 < group.size := by
  obtain ⟨x, memX, sameX⟩ := SortedSet.contains_iff.1 left
  obtain ⟨y, memY, sameY⟩ := SortedSet.contains_iff.1 right
  rw [Slot.compare_eq_iff] at sameX sameY
  rw [SortedSet.size]
  by_contra small
  rcases Nat.le_one_iff_eq_zero_or_eq_one.1 (Nat.le_of_not_lt small) with none | single
  · rw [List.eq_nil_of_length_eq_zero none] at memX
    cases memX
  · obtain ⟨z, list⟩ := List.length_eq_one_iff.1 single
    rw [list, List.mem_singleton] at memX memY
    exact differ (by rw [sameX, sameY, memX, memY])

theorem Represents.exists_class_iff (repr : Represents c pairs) (differ : s.id ≠ t.id) :
    (∃ group ∈ c.classes, group.contains s = true ∧ group.contains t = true) ↔
      Connected pairs s.id t.id := by
  constructor
  · rintro ⟨group, mem, left, right⟩
    rw [← repr.same_iff]
    exact ((contains_class_iff mem right).1 left).2
  · intro joined
    obtain ⟨occursS, occursT⟩ := joined.eq_or_occurs.resolve_left differ
    have top : c.members.contains (c.find s) = true := by
      rw [repr.members]
      rcases (repr.joins_find s).eq_or_occurs with same | ⟨_, occurs⟩
      · exact same ▸ occursS
      · exact occurs
    obtain ⟨root, mem, same⟩ := SortedSet.contains_iff.1 top
    rw [Slot.compare_eq_iff] at same
    have still : (c.find root).id = root.id := by
      rw [← same, id_find_congr same.symm, find_find]
    have left : (c.classOf root).contains s = true :=
      contains_classOf.2 ⟨(repr.members s).2 occursS, same⟩
    have right : (c.classOf root).contains t = true :=
      contains_classOf.2 ⟨(repr.members t).2 occursT, ((repr.same_iff s t).2 joined) ▸ same⟩
    exact ⟨_, mem_classes_iff.2 ⟨root, mem, still, rfl, one_lt_size left right differ⟩, left, right⟩

end

end EquivalenceClasses
end QueryPlan

import QueryPlan.Collection.SortedSet
import QueryPlan.Slot

namespace QueryPlan
namespace SortedSet
variable {α : Type} [Ord α] [Std.TransOrd α]

theorem contains_of_mem {s : SortedSet α} {x : α} (mem : x ∈ s.toList) : s.contains x = true :=
  contains_iff.2 ⟨x, mem, Std.ReflCmp.compare_self⟩

theorem contains_congr {s : SortedSet α} {x y : α} (same : compare x y = .eq) :
    s.contains x = s.contains y := by
  simp only [contains, Std.TransCmp.congr_left same]

theorem contains_union (s t : SortedSet α) (x : α) :
    (s.extend t.toList).contains x = (s.contains x || t.contains x) :=
  contains_extend s t.toList x

theorem eq_of_compare {s : SortedSet α} {x y : α} (memX : x ∈ s.toList) (memY : y ∈ s.toList)
    (same : compare x y = .eq) : x = y := by
  have before : s.toList.Pairwise fun x y => compare x y = .eq → x = y :=
    s.ascending.imp fun less same => by rw [same] at less; cases less
  have after : s.toList.Pairwise fun y x => compare x y = .eq → x = y :=
    s.ascending.imp fun less same => by rw [Std.OrientedCmp.eq_symm same] at less; cases less
  exact before.forall_of_forall_of_flip (fun _ _ _ => rfl) after memX memY same

theorem toList_eq_nil {s : SortedSet α} (none : ∀ x, s.contains x = false) : s.toList = [] := by
  rw [List.eq_nil_iff_forall_not_mem]
  intro x mem
  have there := contains_of_mem mem
  rw [none] at there
  cases there

theorem mem_of_mem_extend {s : SortedSet α} {xs : List α} {y : α}
    (h : y ∈ (s.extend xs).toList) : y ∈ s.toList ∨ y ∈ xs := by
  induction xs generalizing s with
  | nil => exact Or.inl h
  | cons x xs ih =>
    rcases ih h with old | later
    · rcases mem_of_mem_insertAbsent old with rfl | old
      · exact Or.inr (List.mem_cons_self ..)
      · exact Or.inl old
    · exact Or.inr (List.mem_cons_of_mem _ later)

theorem mem_of_mem_ofList {xs : List α} {y : α} (h : y ∈ (ofList xs).toList) : y ∈ xs := by
  induction xs with
  | nil => exact h
  | cons x xs ih =>
    rcases mem_of_mem_insertAbsent h with rfl | later
    · exact List.mem_cons_self ..
    · exact List.mem_cons_of_mem _ (ih later)

theorem exists_mem_ofList {xs : List α} {x : α} (h : x ∈ xs) :
    ∃ y ∈ (ofList xs).toList, compare x y = .eq := by
  rw [← contains_iff, contains_ofList, List.any_eq_true]
  exact ⟨x, h, beq_iff_eq.2 Std.ReflCmp.compare_self⟩

theorem exists_mem_extend {s : SortedSet α} {xs : List α} {x : α} (h : x ∈ xs) :
    ∃ y ∈ (s.extend xs).toList, compare x y = .eq := by
  rw [← contains_iff, contains_extend, Bool.or_eq_true, List.any_eq_true]
  exact Or.inr ⟨x, h, beq_iff_eq.2 Std.ReflCmp.compare_self⟩

theorem ofList_toList (s : SortedSet α) : ofList s.toList = s := by
  obtain ⟨xs, ascending⟩ := s
  apply SortedSet.ext
  change (ofList xs).toList = xs
  induction xs with
  | nil => rfl
  | cons x xs ih =>
    obtain ⟨below, rest⟩ := List.pairwise_cons.1 ascending
    change insertAbsent x (ofList xs).toList = x :: xs
    rw [ih rest]
    cases xs with
    | nil => rfl
    | cons y ys => rw [insertAbsent, below y (List.mem_cons_self ..)]

theorem insertAbsent_last {x : α} {xs : List α} (last : ∀ y ∈ xs, compare y x = .lt) :
    insertAbsent x xs = xs ++ [x] := by
  induction xs with
  | nil => rfl
  | cons y ys ih =>
    obtain ⟨less, rest⟩ := List.forall_mem_cons.1 last
    rw [insertAbsent, Std.OrientedCmp.gt_iff_lt.2 less, ih rest]
    rfl

theorem toList_extend_of_ascending {s : SortedSet α} {xs : List α}
    (ascending : Ascending (s.toList ++ xs)) : (s.extend xs).toList = s.toList ++ xs := by
  induction xs generalizing s with
  | nil => rw [List.append_nil]; rfl
  | cons x xs ih =>
    have last : ∀ y ∈ s.toList, compare y x = .lt := fun y mem =>
      (List.pairwise_append.1 ascending).2.2 y mem x (List.mem_cons_self ..)
    have inserted : (s.insert x).toList = s.toList ++ [x] := insertAbsent_last last
    have rest := ih (s := s.insert x) (by rwa [inserted, List.append_assoc])
    rwa [inserted, List.append_assoc] at rest

theorem extend_toList (s : SortedSet α) : empty.extend s.toList = s :=
  SortedSet.ext (toList_extend_of_ascending (s := empty) s.ascending)

instance [BEq α] [ReflBEq α] : ReflBEq (SortedSet α) where
  rfl {s} := BEq.rfl (a := s.toList)

theorem contains_image_iff {f : α → α} {s : SortedSet α} {xs : List α}
    (respects : ∀ a b, compare a b = .eq → compare (f a) (f b) = .eq)
    (collects : ∀ x, s.contains x = xs.any fun y => compare x y == .eq) {z : α} :
    (ofList (s.toList.map f)).contains z = true ↔ ∃ y ∈ xs.map f, compare z y = .eq := by
  rw [contains_ofList, List.any_map, List.any_eq_true]
  simp only [List.mem_map, Function.comp_apply, beq_iff_eq]
  constructor
  · rintro ⟨a, mem, same⟩
    have there := contains_of_mem mem
    rw [collects, List.any_eq_true] at there
    obtain ⟨x, found, equal⟩ := there
    exact ⟨f x, ⟨x, found, rfl⟩, Std.TransCmp.eq_trans same (respects a x (beq_iff_eq.1 equal))⟩
  · rintro ⟨_, ⟨x, mem, rfl⟩, same⟩
    have there : s.contains x = true := by
      rw [collects, List.any_eq_true]
      exact ⟨x, mem, beq_iff_eq.2 Std.ReflCmp.compare_self⟩
    obtain ⟨a, found, equal⟩ := contains_iff.1 there
    exact ⟨a, found, Std.TransCmp.eq_trans same (respects x a equal)⟩

omit [Std.TransOrd α] in
theorem length_insertAbsent_le (x : α) (xs : List α) :
    (insertAbsent x xs).length ≤ xs.length + 1 := by
  induction xs with
  | nil => simp [insertAbsent]
  | cons y ys ih =>
    rw [insertAbsent]
    split <;> simp only [List.length_cons] <;> omega

theorem size_ofList_le (xs : List α) : (ofList xs).size ≤ xs.length := by
  induction xs with
  | nil => exact Nat.le_refl 0
  | cons x xs ih =>
    have step := length_insertAbsent_le x (ofList xs).toList
    exact Nat.le_trans step (Nat.succ_le_succ ih)

theorem size_extend_le (s : SortedSet α) (xs : List α) :
    (s.extend xs).size ≤ s.size + xs.length := by
  induction xs generalizing s with
  | nil => exact Nat.le_refl _
  | cons x xs ih =>
    have step := length_insertAbsent_le x s.toList
    have rest := ih (s.insert x)
    simp only [extend, List.foldl_cons, size, toList_insert, List.length_cons] at rest step ⊢
    omega

theorem notMem_of_below {x y : α} {xs : List α} (below : ∀ z ∈ xs, compare y z = .lt)
    (not_above : compare x y ≠ .gt) : ¬ ∃ z ∈ xs, compare x z = .eq := by
  rintro ⟨z, mem, same⟩
  have less : compare y x = .lt := Std.TransCmp.congr_right same ▸ below z mem
  exact not_above (Std.OrientedCmp.gt_iff_lt.2 less)

theorem beq_of_ascending [BEq α] [Std.LawfulBEqOrd α] :
    ∀ {xs ys : List α}, Ascending xs → Ascending ys →
      (∀ z, (∃ x ∈ xs, compare z x = .eq) ↔ ∃ y ∈ ys, compare z y = .eq) → (xs == ys) = true
  | [], [], _, _, _ => rfl
  | [], y :: _, _, _, same => by
    have found := (same y).2 ⟨y, List.mem_cons_self .., Std.ReflCmp.compare_self⟩
    simp at found
  | x :: _, [], _, _, same => by
    have found := (same x).1 ⟨x, List.mem_cons_self .., Std.ReflCmp.compare_self⟩
    simp at found
  | x :: xs, y :: ys, first, second, same => by
    obtain ⟨belowX, restX⟩ := List.pairwise_cons.1 first
    obtain ⟨belowY, restY⟩ := List.pairwise_cons.1 second
    simp only [List.mem_cons, exists_eq_or_imp] at same
    -- Each head has an equal in the other list, so neither precedes the other.
    have heads : compare x y = .eq := by
      rcases (same x).1 (Or.inl Std.ReflCmp.compare_self) with heads | inRight
      · exact heads
      · rcases (same y).2 (Or.inl Std.ReflCmp.compare_self) with heads | inLeft
        · exact Std.OrientedCmp.eq_symm heads
        · cases order : compare x y with
          | eq => rfl
          | lt => exact (notMem_of_below belowY (by simp [order]) inRight).elim
          | gt =>
            have less := Std.OrientedCmp.gt_iff_lt.1 order
            exact (notMem_of_below belowX (by simp [less]) inLeft).elim
    have rest : (xs == ys) = true := by
      refine beq_of_ascending restX restY fun z => ⟨fun found => ?_, fun found => ?_⟩
      · refine ((same z).1 (Or.inr found)).resolve_left fun head => ?_
        have head' := Std.TransCmp.eq_trans head (Std.OrientedCmp.eq_symm heads)
        exact notMem_of_below belowX (by simp [head']) found
      · refine ((same z).2 (Or.inr found)).resolve_left fun head => ?_
        have head' := Std.TransCmp.eq_trans head heads
        exact notMem_of_below belowY (by simp [head']) found
    rw [List.cons_beq_cons, Std.LawfulBEqCmp.compare_eq_iff_beq.1 heads, rest, Bool.and_self]

theorem beq_of_contains [BEq α] [Std.LawfulBEqOrd α] {s t : SortedSet α}
    (same : ∀ x, s.contains x = t.contains x) : (s == t) = true :=
  beq_of_ascending s.ascending t.ascending fun z => by
    rw [← contains_iff, ← contains_iff, same]

end SortedSet

theorem map_eq_of_beq [BEq α] {f : α → β} (respects : ∀ a b, (a == b) = true → f a = f b) :
    ∀ {xs ys : List α}, (xs == ys) = true → xs.map f = ys.map f
  | [], [], _ => rfl
  | [], _ :: _, equal | _ :: _, [], equal => by cases equal
  | x :: xs, y :: ys, equal => by
    obtain ⟨first, rest⟩ := Bool.and_eq_true_iff.1 equal
    rw [List.map_cons, List.map_cons, respects x y first, map_eq_of_beq respects rest]

theorem SortedSet.size_eq_of_beq [Ord α] [BEq α] {s t : SortedSet α} (equal : (s == t) = true) :
    s.size = t.size := by
  have lists := map_eq_of_beq (f := fun _ => ()) (fun _ _ _ => rfl) equal
  simpa [size] using congrArg List.length lists

theorem contains_slot_iff {slots : SortedSet Slot} {s : Slot} :
    slots.contains s = true ↔ s.id ∈ slots.toList.map Slot.id := by
  simp only [SortedSet.contains_iff, Slot.compare_eq_iff, List.mem_map]
  exact ⟨fun ⟨t, mem, same⟩ => ⟨t, mem, same.symm⟩, fun ⟨t, mem, same⟩ => ⟨t, mem, same.symm⟩⟩

theorem nodup_ids (slots : SortedSet Slot) : (slots.toList.map Slot.id).Nodup := by
  rw [List.Nodup, List.pairwise_map]
  exact slots.ascending.imp fun less same => by
    rw [Slot.compare_eq_iff.2 same] at less
    cases less

theorem id_mem_ofList_iff {slots : List Slot} {id : SlotId} :
    id ∈ (SortedSet.ofList slots).toList.map Slot.id ↔ id ∈ slots.map Slot.id := by
  simp only [List.mem_map]
  constructor
  · rintro ⟨s, mem, rfl⟩
    exact ⟨s, SortedSet.mem_of_mem_ofList mem, rfl⟩
  · rintro ⟨s, mem, rfl⟩
    obtain ⟨t, found, same⟩ := SortedSet.exists_mem_ofList mem
    exact ⟨t, found, (Slot.compare_eq_iff.1 same).symm⟩

end QueryPlan

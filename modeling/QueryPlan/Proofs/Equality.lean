import Mathlib.Data.List.Forall2
import QueryPlan.Proofs.Membership

namespace QueryPlan

/-- The two pass for equal, which need not make them identical. -/
abbrev Alike [BEq α] (a b : α) : Prop := (a == b) = true

section
variable [BEq α]

theorem alike_list_iff {xs ys : List α} : Alike xs ys ↔ List.Forall₂ Alike xs ys := by
  induction xs generalizing ys with
  | nil => cases ys <;> simp [Alike]
  | cons x xs ih =>
    cases ys with
    | nil => simp [Alike]
    | cons y ys => rw [List.forall₂_cons, ← ih, Alike, List.cons_beq_cons, Bool.and_eq_true]

instance equivBEq_list [EquivBEq α] : EquivBEq (List α) where
  symm {xs ys} equal := by
    rw [← Alike, alike_list_iff] at equal ⊢
    exact equal.flip.imp fun _ _ => BEq.symm
  trans {xs ys zs} first second := by
    rw [← Alike, alike_list_iff] at first second ⊢
    induction first generalizing zs with
    | nil => exact second
    | cons head _ ih =>
      obtain ⟨z, zs, head', tail', rfl⟩ := List.forall₂_cons_left_iff.1 second
      exact .cons (BEq.trans head head') (ih tail')

end

section
variable {R : α → β → Prop} {xs : List α} {ys : List β} {p : α → Bool} {q : β → Bool}

theorem any_eq_of_forall₂ (related : List.Forall₂ R xs ys) (same : ∀ a b, R a b → p a = q b) :
    xs.any p = ys.any q := by
  induction related with
  | nil => rfl
  | cons first rest ih => rw [List.any_cons, List.any_cons, same _ _ first, ih]

theorem all_eq_of_forall₂ (related : List.Forall₂ R xs ys) (same : ∀ a b, R a b → p a = q b) :
    xs.all p = ys.all q := by
  induction related with
  | nil => rfl
  | cons first rest ih => rw [List.all_cons, List.all_cons, same _ _ first, ih]

theorem find?_of_forall₂ (related : List.Forall₂ R xs ys) (same : ∀ a b, R a b → p a = q b) :
    Option.Rel R (xs.find? p) (ys.find? q) := by
  induction related with
  | nil => exact .none
  | cons first rest ih =>
    rw [List.find?_cons, List.find?_cons, same _ _ first]
    split
    · exact .some first
    · exact ih

theorem filter_of_forall₂ (related : List.Forall₂ R xs ys) (same : ∀ a b, R a b → p a = q b) :
    List.Forall₂ R (xs.filter p) (ys.filter q) :=
  List.rel_filter (fun a b holds => Bool.eq_iff_iff.1 (same a b holds)) related

theorem flatMap_of_forall₂ {S : γ → δ → Prop} {f : α → List γ} {g : β → List δ}
    (related : List.Forall₂ R xs ys) (each : ∀ a b, R a b → List.Forall₂ S (f a) (g b)) :
    List.Forall₂ S (xs.flatMap f) (ys.flatMap g) := by
  induction related with
  | nil => exact .nil
  | cons first rest ih => exact List.rel_append (each _ _ first) ih

theorem map_of_forall₂ {S : γ → δ → Prop} {f : α → γ} {g : β → δ}
    (related : List.Forall₂ R xs ys) (each : ∀ a b, R a b → S (f a) (g b)) :
    List.Forall₂ S (xs.map f) (ys.map g) :=
  List.rel_map (fun a b holds => each a b holds) related

theorem map_eq_of_forall₂ {f : α → γ} {g : β → γ} (related : List.Forall₂ R xs ys)
    (same : ∀ a b, R a b → f a = g b) : xs.map f = ys.map g := by
  rw [← List.forall₂_eq_eq_eq]
  exact map_of_forall₂ related same

end

theorem isEmpty_eq_of_forall₂ {R : α → β → Prop} {xs : List α} {ys : List β}
    (related : List.Forall₂ R xs ys) : xs.isEmpty = ys.isEmpty := by
  cases related <;> rfl

theorem alike_option_iff [BEq α] {x y : Option α} : Alike x y ↔ Option.Rel Alike x y := by
  constructor
  · intro equal
    cases x <;> cases y
    case none.none => exact .none
    case some.some a b => exact .some equal
    all_goals cases equal
  · intro related
    cases related with
    | none => rfl
    | some equal => exact equal

section
variable {R : α → β → Prop} {x : Option α} {y : Option β}

theorem cases_of_rel (related : Option.Rel R x y) :
    (x = none ∧ y = none) ∨ ∃ a b, x = some a ∧ y = some b ∧ R a b := by
  cases related with
  | none => exact Or.inl ⟨rfl, rfl⟩
  | some holds => exact Or.inr ⟨_, _, rfl, rfl, holds⟩

theorem getD_of_rel {a : α} {b : β} (related : Option.Rel R x y) (otherwise : R a b) :
    R (x.getD a) (y.getD b) := by
  cases related with
  | none => exact otherwise
  | some holds => exact holds

theorem toList_of_rel (related : Option.Rel R x y) : List.Forall₂ R x.toList y.toList := by
  cases related with
  | none => exact .nil
  | some holds => exact .cons holds .nil

theorem map_of_rel {S : γ → δ → Prop} {f : α → γ} {g : β → δ} (related : Option.Rel R x y)
    (each : ∀ a b, R a b → S (f a) (g b)) : Option.Rel S (x.map f) (y.map g) := by
  cases related with
  | none => exact .none
  | some holds => exact .some (each _ _ holds)

theorem bind_of_rel {S : γ → δ → Prop} {f : α → Option γ} {g : β → Option δ}
    (related : Option.Rel R x y) (each : ∀ a b, R a b → Option.Rel S (f a) (g b)) :
    Option.Rel S (x.bind f) (y.bind g) := by
  cases related with
  | none => exact .none
  | some holds => exact each _ _ holds

end

instance equivBEq_option [BEq α] [EquivBEq α] : EquivBEq (Option α) where
  symm equal := alike_option_iff.2 <| by
    cases alike_option_iff.1 equal with
    | none => exact .none
    | some same => exact .some (BEq.symm same)
  trans first second := alike_option_iff.2 <| by
    cases alike_option_iff.1 first with
    | none => exact alike_option_iff.1 second
    | some same =>
      cases alike_option_iff.1 second with
      | some same' => exact .some (BEq.trans same same')

theorem contains_of_alike [BEq α] [EquivBEq α] {xs ys : List α} {a b : α}
    (lists : List.Forall₂ Alike xs ys) (elements : Alike a b) : xs.contains a = ys.contains b := by
  rw [List.contains_eq_any_beq, List.contains_eq_any_beq]
  refine any_eq_of_forall₂ lists fun x y same => ?_
  rw [BEq.congr_left elements, BEq.congr_right same]

namespace SortedSet
variable {α : Type} [Ord α] [BEq α]

theorem alike_iff {s t : SortedSet α} : Alike s t ↔ List.Forall₂ Alike s.toList t.toList :=
  alike_list_iff

instance [EquivBEq α] : EquivBEq (SortedSet α) where
  symm {s _} equal := BEq.symm (a := s.toList) equal
  trans {s _ _} first second := BEq.trans (a := s.toList) first second

theorem isEmpty_eq_of_alike {s t : SortedSet α} (same : Alike s t) : s.isEmpty = t.isEmpty :=
  isEmpty_eq_of_forall₂ (alike_iff.1 same)

theorem filter_alike {s t : SortedSet α} {p q : α → Bool} (same : Alike s t)
    (tests : ∀ a b, Alike a b → p a = q b) : Alike (s.filter p) (t.filter q) :=
  alike_iff.2 (filter_of_forall₂ (alike_iff.1 same) tests)

theorem compare_beq_eq [Std.LawfulBEqOrd α] (x y : α) : (compare x y == .eq) = (x == y) := by
  rw [Bool.eq_iff_iff, beq_iff_eq, Std.LawfulBEqCmp.compare_eq_iff_beq]

variable [Std.TransOrd α] [Std.LawfulBEqOrd α] {s t : SortedSet α} {xs ys : List α}

theorem equivBEq : EquivBEq α := @Std.LawfulBEqCmp.equivBEq α _ compare _ _

theorem contains_eq_of_alike (same : Alike s t) {x y : α} (elements : Alike x y) :
    s.contains x = t.contains y := by
  have : EquivBEq α := equivBEq
  rw [contains, contains]
  refine any_eq_of_forall₂ (alike_iff.1 same) fun a b holds => ?_
  rw [compare_beq_eq, compare_beq_eq, BEq.congr_left elements, BEq.congr_right holds]

theorem isSubset_eq_of_alike {s' t' : SortedSet α} (same : Alike s s') (same' : Alike t t') :
    s.isSubset t = s'.isSubset t' :=
  all_eq_of_forall₂ (alike_iff.1 same) fun _ _ elements => contains_eq_of_alike same' elements

theorem extend_alike (same : Alike s t) (lists : List.Forall₂ Alike xs ys) :
    Alike (s.extend xs) (t.extend ys) := by
  have : EquivBEq α := equivBEq
  refine beq_of_contains fun x => ?_
  rw [contains_extend, contains_extend, contains_eq_of_alike same BEq.rfl]
  congr 1
  refine any_eq_of_forall₂ lists fun a b holds => ?_
  rw [compare_beq_eq, compare_beq_eq, BEq.congr_right holds]

theorem ofList_alike (lists : List.Forall₂ Alike xs ys) : Alike (ofList xs) (ofList ys) := by
  have : EquivBEq α := equivBEq
  refine beq_of_contains fun x => ?_
  rw [contains_ofList, contains_ofList]
  refine any_eq_of_forall₂ lists fun a b holds => ?_
  rw [compare_beq_eq, compare_beq_eq, BEq.congr_right holds]

end SortedSet

instance : Std.LawfulBEqOrd Slot where
  compare_eq_iff_beq := Slot.compare_eq_iff.trans Slot.beq_iff.symm

instance : EquivBEq Slot := SortedSet.equivBEq

end QueryPlan

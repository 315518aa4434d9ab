import QueryPlan.Proofs.Expr.Congruence
import QueryPlan.Proofs.Expr.Reading

namespace QueryPlan
namespace Expr

/-- Column `t` in the place of column `s`. Correlated lists keep their columns. -/
def rename (s t : Slot) (e : Expr) : Expr := e.substitute [(slot s, slot t)]

def ActsOnSlots (f : Expr → Expr) : Prop :=
  ∀ e : Expr, e.isSlot = false → f e = e.withChildren (e.children.map f)

section
variable {f g : Expr → Expr} {e : Expr}

theorem actsOnSlots_id : ActsOnSlots id := by
  intro e _
  rw [List.map_id, withChildren_children, id]

theorem ActsOnSlots.comp (outer : ActsOnSlots g) (inner : ActsOnSlots f) :
    ActsOnSlots (g ∘ f) := by
  intro e other
  have len : (e.children.map f).length = e.children.length := List.length_map _
  have len' : ((e.children.map f).map g).length = e.children.length := by
    rw [List.length_map, len]
  rw [Function.comp_apply, inner e other, outer _ ((isSlot_withChildren e _).trans other),
    children_withChildren len, withChildren_withChildren len len', List.map_map]

theorem ActsOnSlots.beq (first : ActsOnSlots f) (second : ActsOnSlots g)
    (slots : ∀ s, slot s ∈ e.postorder → (f (slot s) == g (slot s)) = true) :
    (f e == g e) = true := by
  induction e using induct with
  | step e ih =>
    cases kind : e.isSlot with
    | true =>
      obtain ⟨x, rfl⟩ := exists_slot_of_isSlot kind
      exact slots x (mem_postorder_self _)
    | false =>
      rw [first e kind, second e kind]
      apply withChildren_beq (List.length_map _)
      rw [List.forall₂_map_left_iff, List.forall₂_map_right_iff, List.forall₂_same]
      intro c child
      exact ih c child fun s sub => slots s (mem_postorder_of_child child sub)

end

section
variable {s t : Slot}

theorem rename_slot (s t x : Slot) :
    (slot x).rename s t = if x.id = s.id then slot t else slot x := by
  rw [rename, substitute_eq, List.lookup_cons]
  by_cases same : x.id = s.id
  · rw [slot_beq_iff.2 ⟨s, rfl, same⟩, if_pos same]
    rfl
  · have differ : (slot x == slot s) = false := by
      rw [Bool.eq_false_iff]
      intro equal
      obtain ⟨y, shape, id⟩ := slot_beq_iff.1 equal
      cases shape
      exact same id
    rw [differ, if_neg same]
    rfl

theorem actsOnSlots_rename (s t : Slot) : ActsOnSlots (rename s t) := by
  intro e other
  have differ : (e == slot s) = false := by
    rw [Bool.eq_false_iff]
    intro equal
    obtain ⟨y, rfl, _⟩ := slot_beq_iff.1 (BEq.symm equal)
    cases other
  rw [rename, substitute_eq, List.lookup_cons, differ]
  rfl

theorem rename_beq {s' t' : Slot} (same : s.id = s'.id) (same' : t.id = t'.id) (e : Expr) :
    (e.rename s t == e.rename s' t') = true := by
  refine (actsOnSlots_rename s t).beq (actsOnSlots_rename s' t') fun x _ => ?_
  rw [rename_slot, rename_slot, same]
  split
  · exact slot_beq_iff.2 ⟨t', rfl, same'⟩
  · exact BEq.rfl

theorem readsOnly_slot_part {e : Expr} {P : SlotId → Prop} (reads : e.ReadsOnly P) {x : Slot}
    (sub : slot x ∈ e.postorder) : P x.id := readsOnly_slot.1 (reads.of_part sub)

theorem rename_rename_beq {t' u : Slot} {e : Expr} (only : e.ReadsOnly (· = s.id))
    (same : t.id = t'.id) : ((e.rename s t).rename t' u == e.rename s u) = true := by
  have acts : ActsOnSlots (rename t' u ∘ rename s t) :=
    (actsOnSlots_rename t' u).comp (actsOnSlots_rename s t)
  refine acts.beq (actsOnSlots_rename s u) fun x sub => ?_
  rw [Function.comp_apply, rename_slot, rename_slot, if_pos (readsOnly_slot_part only sub),
    if_pos (readsOnly_slot_part only sub), rename_slot, if_pos same]
  exact BEq.rfl

theorem rename_self_beq {e : Expr} (only : e.ReadsOnly (· = s.id)) (same : t.id = s.id) :
    (e.rename s t == e) = true := by
  refine (actsOnSlots_rename s t).beq actsOnSlots_id fun x sub => ?_
  have id := readsOnly_slot_part only sub
  rw [rename_slot, if_pos id]
  exact slot_beq_iff.2 ⟨x, rfl, same.trans id.symm⟩

theorem root_rename {root : Expr → Bool} (slots : ∀ x y, root (slot x) = root (slot y))
    (parts : ∀ e cs, root (e.withChildren cs) = root e) (e : Expr) :
    root (e.rename s t) = root e := by
  cases kind : e.isSlot with
  | true =>
    obtain ⟨x, rfl⟩ := exists_slot_of_isSlot kind
    rw [rename_slot]
    split
    · exact slots _ _
    · rfl
  | false => rw [actsOnSlots_rename s t e kind, parts]

theorem isSlot_rename (e : Expr) : (e.rename s t).isSlot = e.isSlot :=
  root_rename (fun _ _ => rfl) isSlot_withChildren e

theorem children_rename (e : Expr) : (e.rename s t).children = e.children.map (rename s t) := by
  cases kind : e.isSlot with
  | true =>
    obtain ⟨x, rfl⟩ := exists_slot_of_isSlot kind
    rw [rename_slot]
    split <;> rfl
  | false => rw [actsOnSlots_rename s t e kind, children_withChildren (List.length_map _)]

theorem postorder_rename (e : Expr) :
    (e.rename s t).postorder = e.postorder.map (rename s t) := by
  induction e using induct with
  | step e ih =>
    have parts : e.children.map (postorder ∘ rename s t) =
        e.children.map (List.map (rename s t) ∘ postorder) := List.map_congr_left ih
    rw [postorder_eq, postorder_eq e, children_rename, List.map_append, List.flatMap_def,
      List.map_map, parts, List.flatMap_def, List.map_flatten, List.map_map]
    rfl

def ReadsJust (e : Expr) (id : SlotId) : Prop := e.inputSlots.toList.map Slot.id = [id]

theorem readsJust_iff {e : Expr} {id : SlotId} :
    e.ReadsJust id ↔ e.ReadsOnly (· = id) ∧ ¬ e.ReadsOnly fun _ => False := by
  constructor
  · intro just
    constructor
    · intro s mem
      have there : s.id ∈ e.inputSlots.toList.map Slot.id := List.mem_map_of_mem mem
      rw [just] at there
      exact List.mem_singleton.1 there
    · intro none
      rw [ReadsJust, List.eq_nil_iff_forall_not_mem.2 none] at just
      cases just
  · rintro ⟨only, some⟩
    have distinct := nodup_ids e.inputSlots
    rw [ReadsJust]
    match slots : e.inputSlots.toList with
    | [] => exact (some fun s mem => by rw [slots] at mem; cases mem).elim
    | [s] => exact congrArg (fun id => [id]) (only s (slots ▸ List.mem_singleton_self s))
    | s :: t :: rest =>
      have first := only s (slots ▸ List.mem_cons_self ..)
      have second := only t (slots ▸ List.mem_cons_of_mem _ (List.mem_cons_self ..))
      rw [slots] at distinct
      exact ((List.nodup_cons.1 distinct).1 (by simp [first, second])).elim

theorem readsJust_iff_of_beq {a b : Expr} {id : SlotId} (equal : (a == b) = true) :
    a.ReadsJust id ↔ b.ReadsJust id := by
  rw [readsJust_iff, readsJust_iff, readsOnly_iff_of_beq equal, readsOnly_iff_of_beq equal]

theorem readsOnly_rename_iff {e : Expr} {P : SlotId → Prop} (plain : e.containsSubquery = false) :
    (e.rename s t).ReadsOnly P ↔ e.ReadsOnly fun id => if id = s.id then P t.id else P id := by
  rw [readsOnly_iff_parts, readsOnly_iff_parts, postorder_rename, List.forall_mem_map]
  refine forall₂_congr fun part sub => ?_
  cases kind : part.isSlot with
  | true =>
    obtain ⟨x, rfl⟩ := exists_slot_of_isSlot kind
    rw [rename_slot]
    by_cases same : x.id = s.id <;> simp [ownSlots, same]
  | false =>
    have other : part.isSubquery = false := by
      rw [containsSubquery, List.any_eq_false] at plain
      exact Bool.eq_false_iff.2 (plain part sub)
    have own : part.ownSlots = [] := by
      cases part with
      | slot => cases kind
      | subquery => cases other
      | _ => rfl
    rw [actsOnSlots_rename s t part kind, ownSlots_withChildren, own]
    simp

theorem readsJust_rename {e : Expr} (plain : e.containsSubquery = false)
    (just : e.ReadsJust s.id) : (e.rename s t).ReadsJust t.id := by
  obtain ⟨only, some⟩ := readsJust_iff.1 just
  rw [readsJust_iff, readsOnly_rename_iff plain, readsOnly_rename_iff plain]
  constructor
  · intro x mem
    rw [if_pos (only x mem)]
  · intro none
    simp only [ite_self] at none
    exact some none

end
end Expr
end QueryPlan

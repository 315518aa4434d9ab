import QueryPlan.Analysis.EquivalenceClasses
import QueryPlan.Expr.Conjunction
import QueryPlan.Proofs.Expr.Names

namespace QueryPlan
namespace Expr

theorem mem_postorder_iff {e part : Expr} :
    part ∈ e.postorder ↔ (∃ c ∈ e.children, part ∈ c.postorder) ∨ part = e := by
  rw [postorder_eq, List.mem_append, List.mem_flatMap, List.mem_singleton]

theorem mem_postorder_self (e : Expr) : e ∈ e.postorder :=
  mem_postorder_iff.2 (Or.inr rfl)

theorem mem_postorder_of_child {e c part : Expr} (child : c ∈ e.children)
    (sub : part ∈ c.postorder) : part ∈ e.postorder :=
  mem_postorder_iff.2 (Or.inl ⟨c, child, sub⟩)

theorem mem_postorder_trans {e part sub : Expr} (inner : sub ∈ part.postorder)
    (outer : part ∈ e.postorder) : sub ∈ e.postorder := by
  induction e using induct with
  | step e ih =>
    rcases mem_postorder_iff.1 outer with ⟨c, child, outer⟩ | rfl
    · exact mem_postorder_of_child child (ih c child outer)
    · exact inner

def slots (e : Expr) : List Slot := e.postorder.flatMap ownSlots

theorem slots_eq (e : Expr) : e.slots = e.children.flatMap slots ++ e.ownSlots := by
  rw [slots, postorder_eq, List.flatMap_append, List.flatMap_assoc, List.flatMap_singleton]
  rfl

theorem substitute_eq_self {e : Expr} {map : Substitution}
    (absent : ∀ part ∈ e.postorder, map.lookup part = none) : e.substitute map = e := by
  induction e using induct with
  | step e ih =>
    have parts : e.children.map (substitute · map) = e.children.map id :=
      List.map_congr_left fun c child =>
        ih c child fun part sub => absent part (mem_postorder_of_child child sub)
    rw [substitute_eq, absent e (mem_postorder_self e), Option.getD_none, parts, List.map_id,
      withChildren_children]

theorem exists_slot_of_isSlot {e : Expr} (kind : e.isSlot = true) : ∃ x, e = slot x := by
  cases e with
  | slot x => exact ⟨x, rfl⟩
  | _ => cases kind

theorem ownSlots_withChildren (e : Expr) (cs : List Expr) :
    (e.withChildren cs).ownSlots = e.ownSlots := by
  unfold withChildren
  split <;> rfl

theorem isWindow_withChildren (e : Expr) (cs : List Expr) :
    (e.withChildren cs).isWindow = e.isWindow := by
  unfold withChildren
  split <;> rfl

theorem isSubquery_withChildren (e : Expr) (cs : List Expr) :
    (e.withChildren cs).isSubquery = e.isSubquery := by
  unfold withChildren
  split <;> rfl

theorem containsWindow_eq_of_beq {a b : Expr} (h : (a == b) = true) :
    a.containsWindow = b.containsWindow :=
  any_postorder_eq_of_beq isWindow_withChildren (fun e => by cases e <;> rfl) h

theorem containsSubquery_eq_of_beq {a b : Expr} (h : (a == b) = true) :
    a.containsSubquery = b.containsSubquery :=
  any_postorder_eq_of_beq isSubquery_withChildren (fun e => by cases e <;> rfl) h

theorem containsWindow_eq_false_iff {e : Expr} :
    e.containsWindow = false ↔ ∀ part ∈ e.postorder, part.isWindow = false := by
  simp [containsWindow]

theorem containsAggregate_eq_false_iff {e : Expr} :
    e.containsAggregate = false ↔ ∀ part ∈ e.postorder, part.isAggregate = false := by
  simp [containsAggregate]

theorem containsAggregate_andAll {es : List Expr} (none : ∀ e ∈ es, e.containsAggregate = false) :
    (andAll es).containsAggregate = false := by
  match es with
  | [] => rfl
  | [e] => exact none e (List.mem_singleton_self e)
  | a :: b :: rest =>
    rw [containsAggregate_eq_false_iff]
    intro part sub
    rcases mem_postorder_iff.1 sub with ⟨c, child, sub⟩ | rfl
    · exact containsAggregate_eq_false_iff.1 (none c child) part sub
    · rfl

theorem substitute_aggregates {e : Expr} {map : Substitution}
    (plain : e.containsAggregate = false)
    (keys : ∀ pair ∈ map, pair.1.containsAggregate = true) : e.substitute map = e := by
  apply substitute_eq_self
  intro part sub
  cases found : map.lookup part with
  | none => rfl
  | some value =>
    obtain ⟨key, mem, same⟩ := mem_of_lookup found
    have without : part.containsAggregate = false :=
      containsAggregate_eq_false_iff.2 fun inner mem =>
        containsAggregate_eq_false_iff.1 plain inner (mem_postorder_trans mem sub)
    rw [containsAggregate_eq_of_beq same, keys _ mem] at without
    cases without

def isColumn (id : SlotId) : Expr → Bool
  | slot s => s.id == id
  | _ => false

/-- The column is a part of the expression. -/
def mentions (e : Expr) (id : SlotId) : Bool := e.postorder.any (isColumn id)

section
variable {e part : Expr} {id : SlotId}

theorem mentions_iff : e.mentions id = true ↔ ∃ s, slot s ∈ e.postorder ∧ s.id = id := by
  rw [mentions, List.any_eq_true]
  constructor
  · rintro ⟨part, sub, column⟩
    cases part <;> simp only [isColumn, Bool.false_eq_true, beq_iff_eq] at column
    exact ⟨_, sub, column⟩
  · rintro ⟨s, sub, same⟩
    exact ⟨slot s, sub, beq_iff_eq.2 same⟩

theorem mentions_slot (s : Slot) : (slot s).mentions s.id = true :=
  mentions_iff.2 ⟨s, mem_postorder_self _, rfl⟩

theorem mentions_of_part (sub : part ∈ e.postorder) (holds : part.mentions id = true) :
    e.mentions id = true := by
  obtain ⟨s, mem, same⟩ := mentions_iff.1 holds
  exact mentions_iff.2 ⟨s, mem_postorder_trans mem sub, same⟩

theorem isColumn_withChildren (id : SlotId) (e : Expr) (cs : List Expr) :
    isColumn id (e.withChildren cs) = isColumn id e := by
  unfold withChildren
  split <;> rfl

theorem mentions_eq_of_beq {a b : Expr} (equal : (a == b) = true) :
    a.mentions id = b.mentions id :=
  any_postorder_eq_of_beq (isColumn_withChildren id) (fun e => by cases e <;> rfl) equal

end
end Expr
end QueryPlan

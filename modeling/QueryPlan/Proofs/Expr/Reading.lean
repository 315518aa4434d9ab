import QueryPlan.Plan.Basic
import QueryPlan.Proofs.Expr.Parts
import QueryPlan.Proofs.Membership

namespace QueryPlan
namespace Expr

/-- All columns the expression reads, correlated ones included, have identifiers as given. -/
def ReadsOnly (e : Expr) (P : SlotId → Prop) : Prop := ∀ s ∈ e.inputSlots.toList, P s.id

instance (e : Expr) (P : SlotId → Prop) [DecidablePred P] : Decidable (e.ReadsOnly P) :=
  inferInstanceAs (Decidable (∀ s ∈ e.inputSlots.toList, P s.id))

def Within (e : Expr) (columns : List Slot) : Prop :=
  ∀ s ∈ e.inputSlots.toList, s.id ∈ columns.map Slot.id

instance (e : Expr) (columns : List Slot) : Decidable (e.Within columns) :=
  inferInstanceAs (Decidable (∀ s ∈ e.inputSlots.toList, s.id ∈ columns.map Slot.id))

theorem id_mem_inputSlots_iff {e : Expr} {id : SlotId} :
    id ∈ e.inputSlots.toList.map Slot.id ↔
      ∃ part ∈ e.postorder, ∃ s ∈ part.ownSlots, s.id = id := by
  simp only [List.mem_map]
  constructor
  · rintro ⟨s, mem, rfl⟩
    rcases SortedSet.mem_of_mem_extend mem with none | mem
    · cases none
    · obtain ⟨part, sub, own⟩ := List.mem_flatMap.1 mem
      exact ⟨part, sub, s, own, rfl⟩
  · rintro ⟨part, sub, s, own, rfl⟩
    obtain ⟨t, found, same⟩ := SortedSet.exists_mem_extend (s := .empty)
      (List.mem_flatMap.2 ⟨part, sub, own⟩)
    exact ⟨t, found, (Slot.compare_eq_iff.1 same).symm⟩

section
variable {e part : Expr} {P : SlotId → Prop}

theorem readsOnly_iff_parts :
    e.ReadsOnly P ↔ ∀ part ∈ e.postorder, ∀ s ∈ part.ownSlots, P s.id := by
  constructor
  · intro reads part sub s own
    obtain ⟨t, mem, same⟩ := List.mem_map.1 (id_mem_inputSlots_iff.2 ⟨part, sub, s, own, rfl⟩)
    exact same ▸ reads t mem
  · intro parts s mem
    obtain ⟨part, sub, t, own, same⟩ := id_mem_inputSlots_iff.1 (List.mem_map_of_mem mem)
    exact same ▸ parts part sub t own

theorem readsOnly_iff :
    e.ReadsOnly P ↔ (∀ s ∈ e.ownSlots, P s.id) ∧ ∀ c ∈ e.children, c.ReadsOnly P := by
  simp only [readsOnly_iff_parts, postorder_eq e, List.mem_append, List.mem_flatMap,
    List.mem_singleton]
  constructor
  · intro parts
    exact ⟨parts e (Or.inr rfl), fun c child part sub => parts part (Or.inl ⟨c, child, sub⟩)⟩
  · rintro ⟨own, below⟩ part (⟨c, child, sub⟩ | rfl)
    · exact below c child part sub
    · exact own

theorem ReadsOnly.of_part (reads : e.ReadsOnly P) (sub : part ∈ e.postorder) :
    part.ReadsOnly P := by
  rw [readsOnly_iff_parts] at reads ⊢
  exact fun inner mem => reads inner (mem_postorder_trans mem sub)

theorem readsOnly_substitute {map : Substitution} (reads : e.ReadsOnly P)
    (put : ∀ key value, map.lookup key = some value → value.ReadsOnly P) :
    (e.substitute map).ReadsOnly P := by
  induction e using induct with
  | step e ih =>
    rw [substitute_eq]
    cases found : map.lookup e with
    | some value => exact put e value found
    | none =>
      obtain ⟨own, parts⟩ := readsOnly_iff.1 reads
      rw [Option.getD_none, readsOnly_iff, ownSlots_withChildren,
        children_withChildren (List.length_map _), List.forall_mem_map]
      exact ⟨own, fun c child => ih c child (parts c child)⟩

theorem readsOnly_slot {s : Slot} : (slot s).ReadsOnly P ↔ P s.id := by
  simp [readsOnly_iff_parts, postorder_eq, children, ownSlots]

theorem ownSlots_bare_ids (e : Expr) : e.bare.ownSlots.map Slot.id = e.ownSlots.map Slot.id := by
  rw [bare_eq, ownSlots_withChildren]
  cases e <;> simp [bareNode, ownSlots, Slot.bare, Function.comp_def]

theorem readsOnly_bare : e.bare.ReadsOnly P ↔ e.ReadsOnly P := by
  have own (part : Expr) : (∀ s ∈ part.bare.ownSlots, P s.id) ↔ ∀ s ∈ part.ownSlots, P s.id := by
    rw [← List.forall_mem_map (f := Slot.id), ownSlots_bare_ids, List.forall_mem_map]
  simp only [readsOnly_iff_parts, postorder_bare, List.forall_mem_map, own]

theorem readsOnly_iff_of_beq {a b : Expr} (h : (a == b) = true) :
    a.ReadsOnly P ↔ b.ReadsOnly P := by
  rw [← readsOnly_bare, bare_eq_of_beq h, readsOnly_bare]

end

theorem within_iff_parts {e : Expr} {columns : List Slot} :
    e.Within columns ↔
      ∀ part ∈ e.postorder, ∀ s ∈ part.ownSlots, s.id ∈ columns.map Slot.id :=
  readsOnly_iff_parts

theorem within_iff {e : Expr} {columns : List Slot} :
    e.Within columns ↔ (∀ s ∈ e.ownSlots, s.id ∈ columns.map Slot.id) ∧
      ∀ c ∈ e.children, c.Within columns :=
  readsOnly_iff

theorem Within.mono {e : Expr} {columns more : List Slot} (within : e.Within columns)
    (sub : ∀ id ∈ columns.map Slot.id, id ∈ more.map Slot.id) : e.Within more :=
  fun s mem => sub _ (within s mem)

theorem Within.of_part {e part : Expr} {columns : List Slot} (within : e.Within columns)
    (sub : part ∈ e.postorder) : part.Within columns :=
  ReadsOnly.of_part within sub

theorem within_iff_of_beq {a b : Expr} {columns : List Slot} (h : (a == b) = true) :
    a.Within columns ↔ b.Within columns :=
  readsOnly_iff_of_beq h

theorem within_slot {s : Slot} {columns : List Slot} :
    (slot s).Within columns ↔ s.id ∈ columns.map Slot.id :=
  readsOnly_slot

theorem isSubset_ofList_iff {e : Expr} {columns : List Slot} :
    e.inputSlots.isSubset (.ofList columns) = true ↔ e.Within columns := by
  simp only [SortedSet.isSubset, List.all_eq_true, contains_slot_iff, id_mem_ofList_iff, Within]

theorem within_andAll {es : List Expr} {columns : List Slot}
    (within : ∀ e ∈ es, e.Within columns) : (andAll es).Within columns := by
  match es with
  | [] =>
    have own : ∀ s ∈ (andAll []).ownSlots, s.id ∈ columns.map Slot.id := by
      simp [andAll, trueLiteral, ownSlots]
    exact within_iff.2 ⟨own, by simp [andAll, trueLiteral, children]⟩
  | [e] => exact within e (List.mem_singleton_self e)
  | _ :: _ :: _ => exact within_iff.2 ⟨by simp [andAll, ownSlots], within⟩

end Expr
end QueryPlan

import QueryPlan.Expr.Conjunction
import QueryPlan.NamedExpr
import QueryPlan.Proofs.Expr.Congruence
import QueryPlan.Proofs.Expr.Reading
import QueryPlan.Proofs.Expr.Threading

namespace QueryPlan

def aliasIds (aliases : List Alias) : List SlotId := aliases.map fun a => a.slot.id

def definitions (aliases : List Alias) : Substitution := aliases.map fun a => (.slot a.slot, a.expr)

namespace Expr

/-- Puts in the place of the columns of the aliases what they compute. -/
def expand (aliases : List Alias) (e : Expr) : Expr := e.substitute (definitions aliases)

variable {aliases : List Alias}

theorem exists_of_lookup_definitions {e value : Expr}
    (found : (definitions aliases).lookup e = some value) :
    ∃ s, e = slot s ∧ s.id ∈ aliasIds aliases := by
  obtain ⟨key, mem, equal⟩ := mem_of_lookup found
  obtain ⟨a, there, pair⟩ := List.mem_map.1 mem
  cases pair
  obtain ⟨s, rfl, id⟩ := slot_beq_iff.1 (BEq.symm equal)
  exact ⟨s, rfl, List.mem_map.2 ⟨a, there, id⟩⟩

theorem expand_of_not_slot {e : Expr} (other : e.isSlot = false) :
    e.expand aliases = e.withChildren (e.children.map (expand aliases)) := by
  rw [expand, substitute_eq]
  cases found : (definitions aliases).lookup e with
  | none => rfl
  | some value =>
    obtain ⟨s, rfl, _⟩ := exists_of_lookup_definitions found
    cases other

theorem expand_eq_self {e : Expr} (reads : e.ReadsOnly (· ∉ aliasIds aliases)) :
    e.expand aliases = e := by
  apply substitute_eq_self
  intro part sub
  cases found : (definitions aliases).lookup part with
  | none => rfl
  | some value =>
    obtain ⟨s, rfl, computed⟩ := exists_of_lookup_definitions found
    exact (readsOnly_slot.1 (reads.of_part sub) computed).elim

theorem lookup_definitions {a : Alias} (distinct : (aliasIds aliases).Nodup) (mem : a ∈ aliases) :
    (definitions aliases).lookup (slot a.slot) = some a.expr := by
  induction aliases with
  | nil => cases mem
  | cons b aliases ih =>
    obtain ⟨new, rest⟩ := List.nodup_cons.1 distinct
    rw [definitions, List.map_cons, List.lookup_cons]
    rcases List.mem_cons.1 mem with rfl | mem
    · rw [BEq.rfl]
    · have differ : (slot a.slot == slot b.slot) = false := by
        rw [Bool.eq_false_iff]
        intro equal
        obtain ⟨_, same, id⟩ := slot_beq_iff.1 equal
        cases same
        exact new (List.mem_map.2 ⟨a, mem, id⟩)
      rw [differ]
      exact ih rest mem

theorem expand_beq {a b : Expr} (equal : (a == b) = true) :
    (a.expand aliases == b.expand aliases) = true :=
  substitute_beq equal _

theorem expand_column_beq {a : Alias} {e : Expr} (distinct : (aliasIds aliases).Nodup)
    (mem : a ∈ aliases) (computes : (a.expr == e) = true)
    (reads : e.ReadsOnly (· ∉ aliasIds aliases)) :
    ((slot a.slot).expand aliases == e.expand aliases) = true := by
  rw [expand_eq_self reads, expand, substitute_eq, lookup_definitions distinct mem,
    Option.getD_some]
  exact computes

theorem expand_withChildren_beq {e : Expr} {cs : List Expr}
    (parts : List.Forall₂ (fun c r => (r.expand aliases == c.expand aliases) = true)
      e.children cs) : ((e.withChildren cs).expand aliases == e.expand aliases) = true := by
  cases kind : e.isSlot with
  | true =>
    obtain ⟨x, rfl⟩ := exists_slot_of_isSlot kind
    cases parts
    exact BEq.rfl
  | false =>
    have len : cs.length = e.children.length := parts.length_eq.symm
    have len' : (cs.map (expand aliases)).length = e.children.length := by
      rw [List.length_map, len]
    rw [expand_of_not_slot kind, expand_of_not_slot (by rw [isSlot_withChildren, kind]),
      children_withChildren len, withChildren_withChildren len len']
    apply withChildren_beq len'
    rw [List.forall₂_map_left_iff, List.forall₂_map_right_iff]
    exact parts.flip

theorem contains_expanded_iff {s : Conjuncts} {es rs : List Expr}
    (collects : ∀ x, s.contains x = rs.any fun y => compare x y == .eq)
    (pairs : List.Forall₂ (fun e r => (r.expand aliases == e) = true) es rs) {x : Expr} :
    (SortedSet.ofList (s.toList.map (expand aliases))).contains x = true ↔
      ∃ e ∈ es, compare x e = .eq := by
  have respects : ∀ a b : Expr, compare a b = .eq →
      compare (a.expand aliases) (b.expand aliases) = .eq := fun a b same =>
    beq_iff_compare.1 (expand_beq (beq_iff_compare.2 same))
  rw [SortedSet.contains_image_iff respects collects]
  constructor
  · rintro ⟨_, mem, same⟩
    obtain ⟨r, found, rfl⟩ := List.mem_map.1 mem
    obtain ⟨e, there, equal⟩ := exists_left_of_forall₂ pairs found
    exact ⟨e, there, Std.TransCmp.eq_trans same (beq_iff_compare.1 equal)⟩
  · rintro ⟨e, mem, same⟩
    obtain ⟨r, found, equal⟩ := exists_right_of_forall₂ pairs mem
    exact ⟨r.expand aliases, List.mem_map_of_mem found,
      Std.TransCmp.eq_trans same (Std.OrientedCmp.eq_symm (beq_iff_compare.1 equal))⟩

end Expr
end QueryPlan

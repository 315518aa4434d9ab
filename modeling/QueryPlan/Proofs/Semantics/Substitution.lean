import QueryPlan.Proofs.Semantics.Evaluation

namespace QueryPlan
namespace Expr

universe u

variable {V : Type u} {value : Expr → V} {m : Substitution}

theorem Compositional.substitute_eq (compositional : Compositional value)
    (same : ∀ key replacement, m.lookup key = some replacement → value replacement = value key)
    (e : Expr) : value (e.substitute m) = value e := by
  induction e using induct with
  | step e ih =>
    rw [Expr.substitute_eq]
    cases found : m.lookup e with
    | some replacement => exact same e replacement found
    | none =>
      rw [Option.getD_none]
      apply compositional.node
      rw [List.map_map]
      exact List.map_congr_left ih

theorem contains_inputSlots_substitute {e : Expr} {s : Slot}
    (reads : (e.substitute m).inputSlots.contains s = true) :
    e.inputSlots.contains s = true ∨ ∃ key replacement,
      m.lookup key = some replacement ∧ replacement.inputSlots.contains s = true := by
  let Source (id : SlotId) : Prop := id ∈ e.inputSlots.toList.map Slot.id ∨
    ∃ key replacement, m.lookup key = some replacement ∧
      id ∈ replacement.inputSlots.toList.map Slot.id
  have only : (e.substitute m).ReadsOnly Source :=
    readsOnly_substitute (fun t mem => Or.inl (List.mem_map_of_mem mem))
      fun key replacement found t mem =>
        Or.inr ⟨key, replacement, found, List.mem_map_of_mem mem⟩
  simp only [contains_slot_iff] at reads ⊢
  obtain ⟨t, mem, same⟩ := List.mem_map.1 reads
  exact same ▸ only t mem

/-- Lookup ignores names, keys may be parts of other keys, and neither the replacements nor the
columns a subquery is correlated with are searched. -/
theorem substitute_sound (e : Expr) (m : Substitution) :
    (∀ (V : Type u) (value : Expr → V), Compositional value →
      (∀ key replacement, m.lookup key = some replacement → value key = value replacement) →
        value (e.substitute m) = value e) ∧
      (∀ s, (e.substitute m).inputSlots.contains s = true →
        e.inputSlots.contains s = true ∨ ∃ key replacement,
          m.lookup key = some replacement ∧ replacement.inputSlots.contains s = true) ∧
      ((∀ part ∈ e.postorder, ∀ pair ∈ m, (part == pair.1) = false) → e.substitute m = e) := by
  refine ⟨fun V value compositional same => ?_, fun s => contains_inputSlots_substitute,
    fun absent => substitute_eq_self fun part sub => ?_⟩
  · exact compositional.substitute_eq (fun key replacement found =>
      (same key replacement found).symm) e
  · refine List.lookup_eq_none_iff.2 fun pair mem => ?_
    rw [bne, absent part sub pair mem]
    rfl

namespace Sample

def firsts : Functions where
  unary _ d := d
  binary _ d _ := d
  variadic _ ds := ds.headD .null
  aggregate _ d _ := d
  window _ ds _ _ := ds.headD .null
  subquery _ _ _ ds := ds.headD .null

def nested : Substitution :=
  [(.slot ⟨1, "a"⟩, .slot ⟨2, "b"⟩), (.slot ⟨2, "b"⟩, .slot ⟨3, "c"⟩),
    (.unary .neg (.slot ⟨1, "a"⟩), .literal (.integer 5))]

def correlated (arg : Slot) : Expr := .subquery .existence 7 [.slot arg] [⟨1, "x"⟩]

end Sample

open Sample in
/-- The outer key wins over the one inside it, and what is put in stays; the value is the same where
all columns are 5, the second column comes with a replacement, and the first is read by a subquery
in which nothing is replaced. -/
theorem substitute_sound_nested :
    let e : Expr := .binary .add (.unary .neg (.slot ⟨1, "y"⟩)) (correlated ⟨1, "z"⟩)
    e.substitute nested = .binary .add (.literal (.integer 5)) (correlated ⟨2, "b"⟩) ∧
      firsts.eval (fun _ => .integer 5) (e.substitute nested) =
        firsts.eval (fun _ => .integer 5) e ∧
      (∃ key replacement, nested.lookup key = some replacement ∧
        replacement.inputSlots.contains ⟨2, "b"⟩ = true) ∧
      (correlated ⟨4, "d"⟩).substitute nested = correlated ⟨4, "d"⟩ := by
  intro e
  let five : Row := fun _ => .integer 5
  obtain ⟨values, reads, -⟩ := substitute_sound.{0} e nested
  have same (key replacement : Expr) (found : nested.lookup key = some replacement) :
      firsts.eval five key = firsts.eval five replacement := by
    obtain ⟨key', mem, equal⟩ := mem_of_lookup found
    have each : ∀ pair ∈ nested, firsts.eval five pair.1 = firsts.eval five pair.2 := by decide
    rw [Functions.eval_eq_of_beq equal]
    exact each _ mem
  have second := (reads ⟨2, "b"⟩ (by decide)).resolve_left (by decide)
  exact ⟨by rfl, values Datum _ (firsts.compositional five) same, second,
    (substitute_sound.{0} (correlated ⟨4, "d"⟩) nested).2.2 (by decide)⟩

end Expr
end QueryPlan

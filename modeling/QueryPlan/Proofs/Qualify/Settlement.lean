import QueryPlan.Proofs.Expr.Congruence
import QueryPlan.Proofs.Qualify.Resolution

namespace QueryPlan
namespace Qualify

def Computed (outputs : List NamedExpr) (first id : SlotId) : Prop :=
  first ≤ id ∨ ∃ a ∈ aliasesOf outputs, a.slot.id = id

/-- No key and no alias has a computed column as a part. -/
def Independent (groupKey : List Expr) (outputs : List NamedExpr) (first : SlotId) : Prop :=
  ∀ e ∈ groupKey ++ (aliasesOf outputs).map Alias.expr, ∀ id, Computed outputs first id →
    e.mentions id = false

theorem Independent.mono {groupKey : List Expr} {outputs : List NamedExpr} {first next : SlotId}
    (apart : Independent groupKey outputs first) (le : first ≤ next) :
    Independent groupKey outputs next := by
  intro e mem id computed
  exact apart e mem id (computed.imp_left (Nat.le_trans le))

section
variable {groupKey : List Expr} {base r t u : Resolution} {e x : Expr}

theorem produces_mono {outputs wider : List NamedExpr} (grown : outputs <+: wider) {s : Slot}
    (produced : produces outputs s = true) : produces wider s = true := by
  rw [produces, List.any_eq_true] at produced ⊢
  obtain ⟨o, mem, same⟩ := produced
  exact ⟨o, grown.subset mem, same⟩

/-- Outputs were added after those there were at first; the aliases among them are handed out later
identifiers and compute aggregate calls or group keys. -/
structure Extends (groupKey : List Expr) (base r : Resolution) : Prop where
  grown : base.outputs <+: r.outputs
  next : base.supply.next ≤ r.supply.next
  added : ∀ a ∈ aliasesOf r.outputs, a ∈ aliasesOf base.outputs ∨
    (base.supply.next ≤ a.slot.id ∧ (a.expr.isAggregate || groupKey.contains a.expr) = true)

theorem extends_refl (groupKey : List Expr) (r : Resolution) : Extends groupKey r r :=
  ⟨List.prefix_rfl, Nat.le_refl _, fun _ => Or.inl⟩

theorem Extends.computed (ext : Extends groupKey base r) {a : Alias}
    (mem : a ∈ aliasesOf r.outputs) : Computed base.outputs base.supply.next a.slot.id := by
  rcases ext.added a mem with old | ⟨later, _⟩
  · exact Or.inr ⟨a, old, rfl⟩
  · exact Or.inl later

theorem Resolves.extends (step : Resolves groupKey r e x t) (ext : Extends groupKey base r) :
    Extends groupKey base t := by
  have grown := ext.grown.trans step.grows
  cases step with
  | keep | refer => exact ext
  | pass hidden key =>
    refine ⟨grown, ext.next, fun a mem => ext.added a ?_⟩
    rw [mem_aliasesOf] at mem ⊢
    simpa using mem
  | add other unknown needed =>
    refine ⟨grown, Nat.le_succ_of_le ext.next, fun a mem => ?_⟩
    rw [mem_aliasesOf, List.mem_append, List.mem_singleton] at mem
    rcases mem with old | new
    · exact ext.added a (mem_aliasesOf.2 old)
    · cases new
      exact Or.inr ⟨ext.next, needed⟩

def SameOrMentions (base : Resolution) (e x : Expr) : Prop :=
  (x == e) = true ∨ ∃ id, Computed base.outputs base.supply.next id ∧ x.mentions id = true

/-- Over all outputs there may be in the end, every part of the result is settled. -/
def Final (groupKey : List Expr) (base t : Resolution) (e x : Expr) : Prop :=
  ∀ u, Extends groupKey base u → t.outputs <+: u.outputs →
    (∀ part ∈ x.postorder, Settled groupKey u.outputs part) ∧ SameOrMentions base e x

theorem settled_slot_of_produces {s : Slot} (produced : produces t.outputs s = true)
    (grown : t.outputs <+: u.outputs) :
    ∀ part ∈ (Expr.slot s).postorder, Settled groupKey u.outputs part := by
  intro part sub
  rcases Expr.mem_postorder_iff.1 sub with ⟨c, child, _⟩ | rfl
  · cases child
  · exact Or.inl (produces_mono grown produced)

theorem Resolves.final (step : Resolves groupKey r e x t) (ext : Extends groupKey base r) :
    Final groupKey base t e x := by
  intro u beyond grown
  cases step with
  | @keep s settled =>
    refine ⟨fun part sub => ?_, Or.inl BEq.rfl⟩
    rcases Expr.mem_postorder_iff.1 sub with ⟨c, child, _⟩ | rfl
    · cases child
    · exact settled.imp_left (produces_mono grown)
  | pass =>
    exact ⟨settled_slot_of_produces (by simp [produces, NamedExpr.slot]) grown, Or.inl BEq.rfl⟩
  | @refer e a other known =>
    obtain ⟨mem, _⟩ := aliasFor?_some known
    have produced : produces r.outputs a.slot = true :=
      List.any_eq_true.2 ⟨_, mem_aliasesOf.1 mem, Slot.beq_iff.2 rfl⟩
    exact ⟨settled_slot_of_produces produced grown,
      Or.inr ⟨_, ext.computed mem, Expr.mentions_slot _⟩⟩
  | add other unknown needed =>
    exact ⟨settled_slot_of_produces (by simp [produces, NamedExpr.slot]) grown,
      Or.inr ⟨_, Or.inl ext.next, Expr.mentions_slot _⟩⟩

theorem not_key_of_mentions (apart : Independent groupKey base.outputs base.supply.next)
    {id : SlotId} (computed : Computed base.outputs base.supply.next id)
    (mentions : x.mentions id = true) :
    groupKey.contains x = false ∧ ∀ a ∈ aliasesOf base.outputs, (a.expr == x) = false := by
  constructor
  · rw [Bool.eq_false_iff]
    intro key
    obtain ⟨k, mem, same⟩ := List.contains_iff_exists_mem_beq.1 key
    rw [Expr.mentions_eq_of_beq same, apart k (List.mem_append_left _ mem) id computed] at mentions
    cases mentions
  · intro a mem
    rw [Bool.eq_false_iff]
    intro same
    have inside := List.mem_append_right groupKey (List.mem_map_of_mem (f := Alias.expr) mem)
    rw [← Expr.mentions_eq_of_beq same, apart _ inside id computed] at mentions
    cases mentions

theorem contains_of_beq {a b : Expr} (equal : (a == b) = true)
    (key : groupKey.contains a = true) : groupKey.contains b = true := by
  rw [List.contains_iff_exists_mem_beq] at key ⊢
  obtain ⟨k, mem, same⟩ := key
  exact ⟨k, mem, BEq.trans (BEq.symm equal) same⟩

theorem settled_of_new (other : x.isSlot = false) (plain : x.isAggregate = false)
    (key : groupKey.contains x = false)
    (old : ∀ a ∈ aliasesOf base.outputs, (a.expr == x) = false)
    (ext : Extends groupKey base u) : Settled groupKey u.outputs x := by
  refine (settled_of_not_slot other).2 ⟨?_, plain, key⟩
  cases known : aliasFor? u.outputs x with
  | none => rfl
  | some a =>
    obtain ⟨mem, same⟩ := aliasFor?_some known
    rcases ext.added a mem with first | ⟨_, needed⟩
    · rw [old a first] at same
      cases same
    · rcases Bool.or_eq_true_iff.1 needed with call | grouped
      · rw [Expr.isAggregate_eq_of_beq same, plain] at call
        cases call
      · rw [contains_of_beq same grouped] at key
        cases key

theorem same_or_mentions {es cs : List Expr} (parts : List.Forall₂ (SameOrMentions base) es cs) :
    List.Forall₂ (fun x e => (x == e) = true) cs es ∨
      ∃ c ∈ cs, ∃ id, Computed base.outputs base.supply.next id ∧ c.mentions id = true := by
  induction parts with
  | nil => exact Or.inl .nil
  | cons first rest ih =>
    rcases first with same | mentions
    · rcases ih with others | ⟨c, mem, mentions⟩
      · exact Or.inl (.cons same others)
      · exact Or.inr ⟨c, List.mem_cons_of_mem _ mem, mentions⟩
    · exact Or.inr ⟨_, List.mem_cons_self .., mentions⟩

theorem sameOrMentions_withChildren {cs : List Expr}
    (parts : List.Forall₂ (SameOrMentions base) e.children cs) :
    SameOrMentions base e (e.withChildren cs) := by
  have len := parts.length_eq.symm
  rcases same_or_mentions parts with same | ⟨c, mem, id, computed, mentions⟩
  · have equal := Expr.withChildren_beq len same
    rw [Expr.withChildren_children] at equal
    exact Or.inl equal
  · rw [← Expr.children_withChildren len] at mem
    have part := Expr.mem_postorder_of_child mem (Expr.mem_postorder_self c)
    exact Or.inr ⟨id, computed, Expr.mentions_of_part part mentions⟩

theorem final_withChildren (apart : Independent groupKey base.outputs base.supply.next)
    (idle : resolveStep groupKey e r = none) (ext : Extends groupKey base r) {cs : List Expr}
    (parts : List.Forall₂ (Final groupKey base t) e.children cs) :
    Final groupKey base t e (e.withChildren cs) := by
  intro u beyond grown
  have other := isSlot_of_resolveStep_none idle
  obtain ⟨unknown, plain, key⟩ := (settled_of_not_slot other).1 (settled_of_resolveStep_none idle)
  have changed := sameOrMentions_withChildren (parts.imp fun c x final => (final u beyond grown).2)
  refine ⟨fun part sub => ?_, changed⟩
  rcases Expr.mem_postorder_iff.1 sub with ⟨c, child, sub⟩ | rfl
  · rw [Expr.children_withChildren parts.length_eq.symm] at child
    obtain ⟨_, _, final⟩ := exists_left_of_forall₂ parts child
    exact (final u beyond grown).1 part sub
  · have other' := (Expr.isSlot_withChildren e cs).trans other
    have plain' := (Expr.isAggregate_withChildren e cs).trans plain
    rcases changed with same | ⟨id, computed, mentions⟩
    · refine settled_of_new other' plain' ?_ ?_ beyond
      · rw [Bool.eq_false_iff]
        intro grouped
        rw [contains_of_beq same grouped] at key
        cases key
      · intro a mem
        rw [Bool.eq_false_iff]
        intro computes
        have there : a ∈ aliasesOf r.outputs :=
          mem_aliasesOf.2 (ext.grown.subset (mem_aliasesOf.1 mem))
        rw [aliasFor?, List.find?_eq_none] at unknown
        exact unknown a there (BEq.trans computes same)
    · obtain ⟨key', old⟩ := not_key_of_mentions apart computed mentions
      exact settled_of_new other' plain' key' old beyond

theorem settled_resolve {predicates : Conjuncts}
    (apart : Independent groupKey base.outputs base.supply.next) :
    AllSettled groupKey (resolve groupKey predicates base).2.outputs
      (resolve groupKey predicates base).1 := by
  have kept : Extends groupKey base (resolve groupKey predicates base).2 ∧
      base.outputs <+: (resolve groupKey predicates base).2.outputs ∧
      List.Forall₂ (Final groupKey base (resolve groupKey predicates base).2) predicates.toList
        (Expr.replaceAll (resolveStep groupKey) predicates.toList base).1 := by
    refine Expr.replaceAll_keeps (A := fun _ => True)
      (R := fun s t : Resolution => s.outputs <+: t.outputs)
      ?_ ?_ ?_ ?_ ?_ ?_ (extends_refl groupKey base) (fun _ _ => trivial)
    · exact fun s => List.prefix_rfl
    · exact fun s t u first second => first.trans second
    · exact fun s t e x grown final u beyond more => final u beyond (grown.trans more)
    · intro s e x t found ext _
      have step := resolves_of_resolveStep found
      exact ⟨step.extends ext, step.grows, step.final ext⟩
    · exact fun _ _ _ _ _ _ _ => trivial
    · exact fun s e cs t found ext _ parts => final_withChildren apart found ext parts
  obtain ⟨ext, _, results⟩ := kept
  intro p mem
  obtain ⟨_, _, final⟩ := exists_left_of_forall₂ results (SortedSet.mem_of_mem_ofList mem)
  exact (final _ ext List.prefix_rfl).1

end
end Qualify
end QueryPlan

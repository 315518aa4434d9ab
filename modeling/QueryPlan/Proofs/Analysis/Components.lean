import Mathlib.Data.Set.Subsingleton
import Mathlib.Order.Bounds.Basic
import QueryPlan.Proofs.Analysis.EquivalenceClasses
import QueryPlan.Proofs.Equality

/-!
The classes as components of the graph that has the connected pairs as edges. Main statement: the
representative of a column is the smallest column of its component, and the classes are the
components of several columns, in ascending order; neither depends on anything else than which
columns the pairs link.
-/
namespace QueryPlan

/-- One of the pairs links the two columns, in either direction. -/
def Paired (pairs : List (Slot × Slot)) (a b : SlotId) : Prop :=
  ∃ pair ∈ pairs, (pair.1.id = a ∧ pair.2.id = b) ∨ (pair.1.id = b ∧ pair.2.id = a)

section
variable {pairs more : List (Slot × Slot)} {a b : SlotId}

theorem Connected.of_paired (sub : ∀ a b, Paired pairs a b → Paired more a b)
    (joined : Connected pairs a b) : Connected more a b := by
  induction joined with
  | rel a b link =>
    obtain ⟨pair, mem, ends⟩ := link
    obtain ⟨_, there, direct | reversed⟩ := sub a b ⟨pair, mem, Or.inl ends⟩
    · exact .rel _ _ ⟨_, there, direct⟩
    · exact .symm _ _ (.rel _ _ ⟨_, there, reversed⟩)
  | refl a => exact .refl a
  | symm a b _ ih => exact .symm _ _ ih
  | trans a b c _ _ first second => exact .trans _ _ _ first second

theorem occurs_iff_paired : Occurs pairs a ↔ ∃ b, Paired pairs a b := by
  constructor
  · rintro ⟨pair, mem, left | right⟩
    · exact ⟨_, pair, mem, Or.inl ⟨left, rfl⟩⟩
    · exact ⟨_, pair, mem, Or.inr ⟨rfl, right⟩⟩
  · rintro ⟨b, pair, mem, direct | reversed⟩
    · exact ⟨pair, mem, Or.inl direct.1⟩
    · exact ⟨pair, mem, Or.inr reversed.2⟩

end

namespace EquivalenceClasses

/-- Following so many links leads from the first column to the second, where there is none. -/
inductive Climbs (c : EquivalenceClasses) : Slot → Nat → Slot → Prop
  | stop {s : Slot} (root : c.parent? s = none) : Climbs c s 0 s
  | up {s p r : Slot} {n : Nat} (link : c.parent? s = some p) (rest : Climbs c p n r) :
      Climbs c s (n + 1) r

def idSet (group : SortedSet Slot) : Set SlotId := {id | id ∈ group.toList.map Slot.id}

def component (pairs : List (Slot × Slot)) (a : SlotId) : Set SlotId := {b | Connected pairs a b}

section
variable {c d : EquivalenceClasses} {pairs more : List (Slot × Slot)} {s root : Slot}
  {group : SortedSet Slot}

theorem climbs_find (c : EquivalenceClasses) (s : Slot) :
    ∃ n, c.Climbs s n (c.find s) ∧ n + (c.find s).id ≤ s.id := by
  fun_induction find c s with
  | case1 s p link ih =>
    obtain ⟨n, climb, bound⟩ := ih
    have down : p.id < s.id := parent?_lt link
    refine ⟨n + 1, .up link climb, ?_⟩
    rw [Nat.add_right_comm]
    exact Nat.lt_of_le_of_lt bound down
  | case2 s root => exact ⟨0, .stop root, Nat.le_of_eq (Nat.zero_add _)⟩

theorem id_find_le (c : EquivalenceClasses) (s : Slot) : (c.find s).id ≤ s.id := by
  obtain ⟨n, -, bound⟩ := climbs_find c s
  exact Nat.le_trans (Nat.le_add_left ..) bound

theorem Represents.isLeast_find (repr : Represents c pairs) (s : Slot) :
    IsLeast (component pairs s.id) (c.find s).id := by
  refine ⟨repr.joins_find s, fun id joined => ?_⟩
  have same : (c.find s).id = (c.find ⟨id, ""⟩).id := (repr.same_iff s ⟨id, ""⟩).2 joined
  exact same ▸ id_find_le c ⟨id, ""⟩

theorem mem_idSet : s.id ∈ idSet group ↔ group.contains s = true := contains_slot_iff.symm

theorem component_eq {a b : SlotId} (joined : Connected pairs a b) :
    component pairs a = component pairs b :=
  Set.ext fun _ => ⟨.trans _ _ _ (.symm _ _ joined), .trans _ _ _ joined⟩

theorem Represents.idSet_classOf (repr : Represents c pairs)
    (mem : c.members.contains root = true) (still : (c.find root).id = root.id) :
    idSet (c.classOf root) = component pairs root.id := by
  ext id
  have linked : (c.find ⟨id, ""⟩).id = root.id ↔ Connected pairs id root.id := by
    rw [← repr.same_iff ⟨id, ""⟩ root, still]
  rw [mem_idSet (s := ⟨id, ""⟩), contains_classOf, linked, repr.members]
  constructor
  · exact fun ⟨_, joined⟩ => .symm _ _ joined
  · intro joined
    refine ⟨?_, .symm _ _ joined⟩
    rcases joined.eq_or_occurs with same | occurs
    · exact same ▸ (repr.members root).1 mem
    · exact occurs.2

theorem Represents.idSet_of_mem_classes (repr : Represents c pairs) (mem : group ∈ c.classes) :
    ∃ a, idSet group = component pairs a := by
  obtain ⟨root, member, still, rfl, -⟩ := mem_classes_iff.1 mem
  exact ⟨root.id, repr.idSet_classOf (SortedSet.contains_of_mem member) still⟩

theorem nontrivial_of_mem_classes (mem : group ∈ c.classes) : (idSet group).Nontrivial := by
  obtain ⟨-, -, -, -, large⟩ := mem_classes_iff.1 mem
  have distinct := nodup_ids group
  rcases list : group.toList with _ | ⟨x, _ | ⟨y, rest⟩⟩
  · simp [SortedSet.size, list] at large
  · simp [SortedSet.size, list] at large
  · rw [list] at distinct
    refine ⟨x.id, ?_, y.id, ?_, fun same => ?_⟩
    · simp [idSet, list]
    · simp [idSet, list]
    · simp [same] at distinct

theorem Represents.exists_class_of_nontrivial (repr : Represents c pairs) {a : SlotId}
    (several : (component pairs a).Nontrivial) :
    ∃ group ∈ c.classes, idSet group = component pairs a := by
  obtain ⟨x, toX, y, toY, differ⟩ := several
  have joined : Connected pairs x y := .trans _ _ _ (.symm _ _ toX) toY
  obtain ⟨group, mem, insideX, -⟩ :=
    (repr.exists_class_iff (s := ⟨x, ""⟩) (t := ⟨y, ""⟩) differ).2 joined
  obtain ⟨b, whole⟩ := repr.idSet_of_mem_classes mem
  have fromB : Connected pairs b x := by
    have there := mem_idSet.2 insideX
    rwa [whole] at there
  refine ⟨group, mem, ?_⟩
  rw [whole, component_eq fromB, component_eq toX]

theorem Represents.classes_ascending (repr : Represents c pairs) :
    c.classes.Pairwise fun g h => ∀ a b, IsLeast (idSet g) a → IsLeast (idSet h) b → a < b := by
  have least (root : Slot) (member : root ∈ c.members.toList) (still : (c.find root).id = root.id) :
      IsLeast (idSet (c.classOf root)) root.id := by
    rw [repr.idSet_classOf (SortedSet.contains_of_mem member) still]
    exact still ▸ repr.isLeast_find root
  refine List.Pairwise.filter _ (List.pairwise_map.2 ?_)
  refine (c.members.ascending.filter _).imp_of_mem fun {r r'} mem mem' less a b first second => ?_
  obtain ⟨member, still⟩ := List.mem_filter.1 mem
  obtain ⟨member', still'⟩ := List.mem_filter.1 mem'
  rw [first.unique (least r member (Slot.beq_iff.1 still)),
    second.unique (least r' member' (Slot.beq_iff.1 still'))]
  exact Nat.compare_eq_lt.1 less

theorem Represents.find_eq (repr : Represents c pairs) (repr' : Represents d more)
    (same : ∀ a b, Connected pairs a b ↔ Connected more a b) (s : Slot) :
    (c.find s).id = (d.find s).id := by
  have components : component pairs s.id = component more s.id := Set.ext (same s.id)
  exact (repr.isLeast_find s).unique (components ▸ repr'.isLeast_find s)

theorem Represents.members_alike (repr : Represents c pairs) (repr' : Represents d more)
    (same : ∀ a, Occurs pairs a ↔ Occurs more a) : Alike c.members d.members :=
  SortedSet.beq_of_contains fun s => by
    rw [Bool.eq_iff_iff, repr.members, repr'.members, same]

theorem classes_alike (members : Alike c.members d.members)
    (roots : ∀ s, (c.find s).id = (d.find s).id) : Alike c.classes d.classes := by
  have finds {s t : Slot} (same : Alike s t) : (c.find s).id = (d.find t).id :=
    (roots s).trans (id_find_congr (Slot.beq_iff.1 same))
  have tops : List.Forall₂ Alike (c.members.toList.filter fun s => c.find s == s)
      (d.members.toList.filter fun s => d.find s == s) := by
    refine filter_of_forall₂ (SortedSet.alike_iff.1 members) fun s t same => ?_
    rw [Bool.eq_iff_iff, Slot.beq_iff, Slot.beq_iff, finds same, Slot.beq_iff.1 same]
  have groups (s t : Slot) (same : Alike s t) : Alike (c.classOf s) (d.classOf t) := by
    refine SortedSet.filter_alike members fun a b equal => ?_
    rw [Bool.eq_iff_iff, Slot.beq_iff, Slot.beq_iff, finds equal, Slot.beq_iff.1 same]
  refine alike_list_iff.2 (filter_of_forall₂ (map_of_forall₂ tops groups) fun g h same => ?_)
  rw [SortedSet.size_eq_of_beq same]

end

/-- However the pairs are connected, links go down and end at the smallest column of the component;
the classes are the components of several columns, each once and by their smallest columns; and
the same links in another order, direction or number give the same. -/
theorem classes_are_components (pairs : List (Slot × Slot)) :
    let c := ofPairs pairs
    (∀ s p, c.parent? s = some p → p.id < s.id) ∧
      (∀ s, ∃ n ≤ s.id, c.Climbs s n (c.find s)) ∧
      (∀ s, IsLeast (component pairs s.id) (c.find s).id) ∧
      (∀ ids, (∃ group ∈ c.classes, idSet group = ids) ↔
        (∃ a, ids = component pairs a) ∧ ids.Nontrivial) ∧
      (c.classes.Pairwise fun g h =>
        ∀ a b, IsLeast (idSet g) a → IsLeast (idSet h) b → a < b) ∧
      (∀ more, (∀ a b, Paired pairs a b ↔ Paired more a b) →
        (∀ s, c.find s == (ofPairs more).find s) ∧ c.classes == (ofPairs more).classes) := by
  intro c
  have repr : Represents c pairs := represents_ofPairs pairs
  refine ⟨fun s p => parent?_lt, fun s => ?_, repr.isLeast_find, fun ids => ⟨?_, ?_⟩,
    repr.classes_ascending, fun more same => ?_⟩
  · obtain ⟨n, climb, bound⟩ := climbs_find c s
    exact ⟨n, Nat.le_trans (Nat.le_add_right ..) bound, climb⟩
  · rintro ⟨group, mem, rfl⟩
    exact ⟨repr.idSet_of_mem_classes mem, nontrivial_of_mem_classes mem⟩
  · rintro ⟨⟨a, rfl⟩, several⟩
    exact repr.exists_class_of_nontrivial several
  · have repr' := represents_ofPairs more
    have joined (a b : SlotId) : Connected pairs a b ↔ Connected more a b :=
      ⟨.of_paired fun a b => (same a b).1, .of_paired fun a b => (same a b).2⟩
    have roots := repr.find_eq repr' joined
    have occurs (a : SlotId) : Occurs pairs a ↔ Occurs more a := by
      rw [occurs_iff_paired, occurs_iff_paired]
      exact exists_congr (same a)
    exact ⟨fun s => Slot.beq_iff.2 (roots s), classes_alike (repr.members_alike repr' occurs) roots⟩

namespace Sample

def joining : List (Slot × Slot) :=
  [(⟨3, "c"⟩, ⟨4, "d"⟩), (⟨1, "a"⟩, ⟨2, "b"⟩), (⟨4, "d"⟩, ⟨2, "b"⟩), (⟨5, "e"⟩, ⟨5, "e"⟩)]

def shuffled : List (Slot × Slot) :=
  [(⟨5, "e"⟩, ⟨5, "e"⟩), (⟨2, "b"⟩, ⟨4, "d"⟩), (⟨4, "d"⟩, ⟨2, "b"⟩), (⟨4, "d"⟩, ⟨3, "c"⟩),
    (⟨1, "a"⟩, ⟨2, "b"⟩)]

end Sample

open Sample in
theorem classes_are_components_shuffled :
    (∀ a b, Paired joining a b ↔ Paired shuffled a b) ∧
      (∀ s, (ofPairs joining).find s == (ofPairs shuffled).find s) ∧
      (ofPairs joining).classes == (ofPairs shuffled).classes ∧
      IsLeast (component joining 4) 1 := by
  have same (a b : SlotId) : Paired joining a b ↔ Paired shuffled a b := by
    simp only [Paired, joining, shuffled, List.exists_mem_cons_iff, List.not_mem_nil]
    grind
  have equal := (classes_are_components joining).2.2.2.2.2 shuffled same
  have least := (classes_are_components joining).2.2.1 ⟨4, "d"⟩
  have top : ((ofPairs joining).find ⟨4, "d"⟩).id = 1 := by
    decide +kernel
  exact ⟨same, equal.1, equal.2, top ▸ least⟩

end EquivalenceClasses
end QueryPlan

import QueryPlan.Collection.SortedSet
import QueryPlan.Slot

/-!
Classes of columns known to be equal. Each column that is not the smallest of its class links to a
smaller one, so following the links ends at the representative.
-/
namespace QueryPlan

theorem mem_of_lookup [BEq α] {a : α} {b : β} :
    ∀ {pairs : List (α × β)}, pairs.lookup a = some b → ∃ k, (k, b) ∈ pairs ∧ (a == k) = true
  | [], h => by simp at h
  | (k, v) :: rest, h => by
    rw [List.lookup_cons] at h
    split at h
    · cases h
      exact ⟨k, List.mem_cons_self .., by assumption⟩
    · obtain ⟨k, mem, same⟩ := mem_of_lookup h
      exact ⟨k, List.mem_cons_of_mem _ mem, same⟩

structure EquivalenceClasses where
  parents : List (Slot × Slot)
  members : SortedSet Slot
  descending : ∀ link ∈ parents, link.2.id < link.1.id

namespace EquivalenceClasses

def empty : EquivalenceClasses := ⟨[], .empty, by simp⟩

def parent? (c : EquivalenceClasses) (s : Slot) : Option Slot := c.parents.lookup s

theorem parent?_lt {c : EquivalenceClasses} {s p : Slot} (h : c.parent? s = some p) :
    p.id < s.id := by
  obtain ⟨k, mem, same⟩ := mem_of_lookup h
  have below : p.id < k.id := c.descending _ mem
  rwa [Slot.beq_iff.1 same]

def find (c : EquivalenceClasses) (s : Slot) : Slot :=
  match _h : c.parent? s with
  | some p => c.find p
  | none => s
termination_by s.id
decreasing_by exact parent?_lt _h

/-- Records that two columns are equal: the larger representative is linked to the smaller. -/
def connect (c : EquivalenceClasses) (a b : Slot) : EquivalenceClasses :=
  let members := (c.members.insert a).insert b
  let root := c.find a
  let root' := c.find b
  if lt : root.id < root'.id then
    ⟨(root', root) :: c.parents, members, List.forall_mem_cons.2 ⟨lt, c.descending⟩⟩
  else if gt : root'.id < root.id then
    ⟨(root, root') :: c.parents, members, List.forall_mem_cons.2 ⟨gt, c.descending⟩⟩
  else
    ⟨c.parents, members, c.descending⟩

def ofPairs (pairs : List (Slot × Slot)) : EquivalenceClasses :=
  pairs.foldl (fun c pair => c.connect pair.1 pair.2) empty

def classOf (c : EquivalenceClasses) (root : Slot) : SortedSet Slot :=
  c.members.filter fun s => c.find s == root

/-- The classes with at least two members, in ascending order of their smallest ones. -/
def classes (c : EquivalenceClasses) : List (SortedSet Slot) :=
  let roots := c.members.toList.filter fun s => c.find s == s
  (roots.map c.classOf).filter fun group => 1 < group.size

end EquivalenceClasses
end QueryPlan

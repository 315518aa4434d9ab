/-!
Columns of a plan. A column is identified by a number; the name it carries is for display only,
so two slots with one id are the same column whatever they are called.
-/
namespace QueryPlan

/-- Identifiers have 64 bits. Counting goes on past the last of them, and `Supply.InRange` tells
whether it has not. -/
abbrev SlotId := Nat

structure Slot where
  id : SlotId
  name : String

namespace Slot

instance : BEq Slot := ⟨fun a b => a.id == b.id⟩

instance : Ord Slot := ⟨fun a b => compare a.id b.id⟩

instance : Std.TransOrd Slot := inferInstanceAs (Std.TransCmp (compareOn Slot.id))

@[simp] theorem beq_iff {a b : Slot} : (a == b) = true ↔ a.id = b.id := by
  simp [BEq.beq]

theorem compare_def (a b : Slot) : compare a b = compare a.id b.id := rfl

theorem compare_eq_iff {a b : Slot} : compare a b = .eq ↔ a.id = b.id :=
  Nat.compare_eq_eq

def render (s : Slot) : String := s.name ++ "#" ++ toString s.id

end Slot

structure Supply where
  next : SlotId

namespace Supply

def allocate (supply : Supply) : SlotId × Supply := (supply.next, ⟨supply.next + 1⟩)

def fresh (supply : Supply) (name : String) : Slot × Supply :=
  (⟨supply.next, name⟩, ⟨supply.next + 1⟩)

/-- The next identifier has 64 bits. A supply only counts up, so one that is in range at the end of
a run was so throughout, and no addition on the way overflowed. -/
def InRange (supply : Supply) : Prop := supply.next < UInt64.size

instance : DecidablePred InRange := fun supply => Nat.decLt supply.next UInt64.size

end Supply
end QueryPlan

import QueryPlan.Proofs.Analysis.Propagation
import QueryPlan.Proofs.Semantics.Evaluation

namespace QueryPlan
namespace Functions
variable {F : Functions} {row : Row}

def ComparesEqual (F : Functions) : Prop :=
  ∀ x y, F.binary .eq x y = .boolean true ↔ x = y ∧ x ≠ .null

theorem ComparesEqual.holds_iff (compares : F.ComparesEqual) {a b : Slot} :
    F.Holds row (.equality a b) ↔ row a.id = row b.id ∧ row a.id ≠ .null :=
  compares (row a.id) (row b.id)

theorem holds_iff_of_beq {a b : Expr} (equal : (a == b) = true) :
    F.Holds row a ↔ F.Holds row b := by
  rw [Holds, Holds, eval_eq_of_beq equal]

theorem eval_rename {s t : Slot} (same : row t.id = row s.id) (e : Expr) :
    F.eval row (e.rename s t) = F.eval row e := by
  have within : e.Within e.inputSlots.toList := fun s mem => List.mem_map_of_mem mem
  refine eval_substitute ?_ (fun _ _ => rfl) within
  intro pair mem
  rw [List.mem_singleton.1 mem]
  exact same

end Functions

namespace Inference
variable {F : Functions} {row : Row} {predicates : Conjuncts}

theorem holds_of_contains (holds : ∀ p ∈ predicates.toList, F.Holds row p) {e : Expr}
    (stated : predicates.contains e = true) : F.Holds row e := by
  obtain ⟨p, mem, equal⟩ := contains_iff_beq.1 stated
  exact (Functions.holds_iff_of_beq equal).2 (holds p mem)

/-- Columns that a chain of equalities joins have one value, and that is not null unless the chain
is empty. -/
theorem value_of_linked (compares : F.ComparesEqual)
    (holds : ∀ p ∈ predicates.toList, F.Holds row p) {a b : SlotId}
    (linked : Linked predicates a b) : row a = row b ∧ (a ≠ b → row a ≠ .null) := by
  induction linked with
  | rel a b link =>
    obtain ⟨s, t, stated, rfl, rfl⟩ := link
    obtain ⟨same, value⟩ := compares.holds_iff.1 (holds_of_contains holds stated)
    exact ⟨same, fun _ => value⟩
  | refl a => exact ⟨rfl, fun differ => (differ rfl).elim⟩
  | symm a b _ ih =>
    obtain ⟨same, value⟩ := ih
    exact ⟨same.symm, fun differ => same ▸ value differ.symm⟩
  | trans a b c _ _ first second =>
    refine ⟨first.1.trans second.1, fun differ => ?_⟩
    by_cases start : a = b
    · subst start
      exact second.2 differ
    · exact first.2 start

theorem holds_of_propagated (compares : F.ComparesEqual)
    (holds : ∀ p ∈ predicates.toList, F.Holds row p) {e : Expr}
    (follows : Propagated predicates e) : F.Holds row e := by
  cases follows with
  | equality linked less =>
    obtain ⟨same, value⟩ := value_of_linked compares holds linked
    exact compares.holds_iff.2 ⟨same, value (Nat.ne_of_lt less)⟩
  | restatement given other aggregates windows subqueries just linked =>
    have same := (value_of_linked compares holds linked).1
    rw [Functions.Holds, Functions.eval_rename same]
    exact holds_of_contains holds given

theorem equality_sound (compares : F.ComparesEqual)
    (holds : ∀ p ∈ predicates.toList, F.Holds row p) :
    ∀ p ∈ (equality predicates).toList, F.Holds row p := by
  intro p mem
  obtain ⟨found, follows, equal⟩ := contains_equality_iff.1 (SortedSet.contains_of_mem mem)
  exact (Functions.holds_iff_of_beq equal).2 (holds_of_propagated compares holds follows)

namespace Sample

def comparing : Functions where
  unary _ _ := .null
  binary f x y := if f = .eq ∧ x = y ∧ x ≠ .null then .boolean true else .null
  variadic _ _ := .null
  aggregate _ _ _ := .null
  window _ _ _ _ := .null
  subquery _ _ _ _ := .null

def columns : List Slot := [⟨1, "a"⟩, ⟨2, "b"⟩, ⟨3, "c"⟩]

def chain : Conjuncts :=
  .ofList (.binary .eq (.slot ⟨1, "a"⟩) (.literal (.integer 7)) ::
    columns.zipWith Expr.equality columns.tail)

end Sample

open Sample in
theorem equality_sound_chain :
    (equality chain).size = 3 ∧
      ∀ p ∈ (equality chain).toList, comparing.Holds (fun _ => .integer 7) p := by
  have compares : comparing.ComparesEqual := by
    intro x y
    by_cases equal : x = y ∧ x ≠ .null <;> simp [comparing, equal]
  exact ⟨by decide +kernel, equality_sound compares (by decide)⟩

end Inference
end QueryPlan

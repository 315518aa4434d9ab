/-!
Finite sets kept as strictly ascending lists. Elements are compared by their order alone, so of
two elements that compare equal a set holds one; `insert` keeps the one already present and
`ofList` the one that comes last.
-/
namespace QueryPlan

def sum (sizes : List Nat) : Nat := sizes.foldr (· + ·) 0

@[simp] theorem sum_nil : sum [] = 0 := rfl

@[simp] theorem sum_cons (n : Nat) (ns : List Nat) : sum (n :: ns) = n + sum ns := rfl

theorem sum_append (ms ns : List Nat) : sum (ms ++ ns) = sum ms + sum ns := by
  induction ms with
  | nil => simp
  | cons m ms ih => simp only [List.cons_append, sum_cons]; omega

/-- Puts `x` at its place in an ascending list, unless an equal element stands there. -/
def insertAbsent [Ord α] (x : α) : List α → List α
  | [] => [x]
  | y :: ys =>
    match compare x y with
    | .lt => x :: y :: ys
    | .eq => y :: ys
    | .gt => y :: insertAbsent x ys

def Ascending [Ord α] (xs : List α) : Prop := xs.Pairwise fun a b => compare a b = .lt

theorem mem_of_mem_insertAbsent [Ord α] {x y : α} {xs : List α} (h : y ∈ insertAbsent x xs) :
    y = x ∨ y ∈ xs := by
  induction xs with
  | nil => simpa [insertAbsent] using h
  | cons z zs ih =>
    simp only [insertAbsent] at h
    split at h
    · simpa using h
    · exact Or.inr h
    · rcases List.mem_cons.1 h with rfl | h
      · exact Or.inr (List.mem_cons_self ..)
      · exact (ih h).imp_right (List.mem_cons_of_mem _)

theorem sum_insertAbsent_le [Ord α] (f : α → Nat) (x : α) (xs : List α) :
    sum ((insertAbsent x xs).map f) ≤ f x + sum (xs.map f) := by
  induction xs with
  | nil => simp [insertAbsent]
  | cons y ys ih =>
    simp only [insertAbsent]
    split <;> simp only [List.map_cons, sum_cons] <;> omega

theorem ascending_insertAbsent [Ord α] [Std.TransOrd α] (x : α) {xs : List α}
    (h : Ascending xs) : Ascending (insertAbsent x xs) := by
  induction xs with
  | nil => simp [insertAbsent, Ascending]
  | cons y ys ih =>
    obtain ⟨below, rest⟩ := List.pairwise_cons.1 h
    simp only [insertAbsent]
    split
    · rename_i lt
      refine List.pairwise_cons.2 ⟨fun z hz => ?_, h⟩
      rcases List.mem_cons.1 hz with rfl | hz
      · exact lt
      · exact Std.TransCmp.lt_trans lt (below z hz)
    · exact h
    · rename_i gt
      refine List.pairwise_cons.2 ⟨fun z hz => ?_, ih rest⟩
      rcases mem_of_mem_insertAbsent hz with rfl | hz
      · exact Std.OrientedCmp.gt_iff_lt.1 gt
      · exact below z hz

structure SortedSet (α : Type) [Ord α] where
  toList : List α
  ascending : Ascending toList

namespace SortedSet
variable {α : Type} [Ord α]

@[ext] theorem ext {s t : SortedSet α} (h : s.toList = t.toList) : s = t := by
  cases s; cases t; cases h; rfl

def empty : SortedSet α := ⟨[], .nil⟩

instance : Inhabited (SortedSet α) := ⟨empty⟩

def size (s : SortedSet α) : Nat := s.toList.length

def isEmpty (s : SortedSet α) : Bool := s.toList.isEmpty

def contains (s : SortedSet α) (x : α) : Bool := s.toList.any fun y => compare x y == .eq

def isSubset (s t : SortedSet α) : Bool := s.toList.all t.contains

instance [BEq α] : BEq (SortedSet α) := ⟨fun s t => s.toList == t.toList⟩

def filter (p : α → Bool) (s : SortedSet α) : SortedSet α :=
  ⟨s.toList.filter p, s.ascending.filter p⟩

@[simp] theorem toList_filter (p : α → Bool) (s : SortedSet α) :
    (s.filter p).toList = s.toList.filter p := rfl

theorem contains_iff {s : SortedSet α} {x : α} :
    s.contains x = true ↔ ∃ y ∈ s.toList, compare x y = .eq := by
  simp [contains]

theorem contains_empty (x : α) : (empty : SortedSet α).contains x = false := rfl

variable [Std.TransOrd α]

/-- Adds `x`; an equal element already present stays. -/
def insert (s : SortedSet α) (x : α) : SortedSet α :=
  ⟨insertAbsent x s.toList, ascending_insertAbsent x s.ascending⟩

def extend (s : SortedSet α) (xs : List α) : SortedSet α := xs.foldl insert s

/-- Collects a list; the last of equal elements stays. -/
def ofList (xs : List α) : SortedSet α := xs.foldr (fun x s => s.insert x) empty

@[simp] theorem toList_insert (s : SortedSet α) (x : α) :
    (s.insert x).toList = insertAbsent x s.toList := rfl

theorem contains_insert (s : SortedSet α) (x y : α) :
    (s.insert x).contains y = (compare y x == .eq || s.contains y) := by
  simp only [contains, toList_insert]
  induction s.toList with
  | nil => simp [insertAbsent]
  | cons z zs ih =>
    simp only [insertAbsent]
    split
    · rfl
    · rename_i same
      rw [Std.TransCmp.congr_right same]
      simp
    · simp only [List.any_cons, ih]
      cases compare y z == .eq <;> cases compare y x == .eq <;> rfl

theorem contains_extend (s : SortedSet α) (xs : List α) (y : α) :
    (s.extend xs).contains y = (s.contains y || xs.any fun x => compare y x == .eq) := by
  induction xs generalizing s with
  | nil => simp [extend]
  | cons x xs ih =>
    have step := ih (s.insert x)
    simp only [extend, List.foldl_cons, List.any_cons] at step ⊢
    rw [step, contains_insert]
    cases compare y x == .eq <;> cases s.contains y <;> rfl

theorem contains_ofList (xs : List α) (y : α) :
    (ofList xs).contains y = xs.any fun x => compare y x == .eq := by
  induction xs with
  | nil => rfl
  | cons x xs ih =>
    simp only [ofList, List.foldr_cons, List.any_cons] at ih ⊢
    rw [contains_insert, ih]

theorem sum_ofList_le (f : α → Nat) (xs : List α) :
    sum ((ofList xs).toList.map f) ≤ sum (xs.map f) := by
  induction xs with
  | nil => exact Nat.le_refl 0
  | cons x xs ih =>
    have := sum_insertAbsent_le f x (ofList xs).toList
    simp only [ofList, List.foldr_cons, toList_insert, List.map_cons, sum_cons] at this ih ⊢
    omega

end SortedSet
end QueryPlan

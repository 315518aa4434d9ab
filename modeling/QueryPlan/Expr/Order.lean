import QueryPlan.Expr.Basic

/-!
The order of expressions: by kind of node, then by the node's parts from left to right, lists
lexicographically, and slots by identifier alone. Main statements: comparing two expressions is
comparing their keys, which are lists of integers; hence the order is total and transitive. What
compares equal is what is equal part by part.
-/
namespace QueryPlan

/-- The key is a faithful image of the order, whatever follows it. -/
def KeyOf [Ord α] (key : α → List Int) : Prop :=
  ∀ a b r t, compare (key a ++ r) (key b ++ t) = (compare a b).then (compare r t)

theorem KeyOf.compare_eq [Ord α] {key : α → List Int} (h : KeyOf key) (a b : α) :
    compare a b = compare (key a) (key b) := by
  simpa using (h a b [] []).symm

theorem KeyOf.transOrd [Ord α] {key : α → List Int} (h : KeyOf key) : Std.TransOrd α := by
  have same : (compare : α → α → Ordering) = compareOn key :=
    funext fun a => funext fun b => h.compare_eq a b
  rw [Std.TransOrd, same]
  infer_instance

/-- Marks each element with `1` and the end with `0`, so that no key is the beginning of another. -/
def listKey (key : α → List Int) : List α → List Int
  | [] => [0]
  | x :: xs => 1 :: (key x ++ listKey key xs)

theorem compare_listKey [Ord α] {key : α → List Int} :
    ∀ as bs : List α, (∀ a ∈ as, ∀ b r t,
        compare (key a ++ r) (key b ++ t) = (compare a b).then (compare r t)) →
      ∀ r t, compare (listKey key as ++ r) (listKey key bs ++ t) =
        (compare as bs).then (compare r t)
  | [], [], _, r, t => by simp [listKey, List.compare_cons_cons]
  | [], _ :: _, _, r, t => by
    simp [listKey, List.compare_cons_cons, show compare (0 : Int) 1 = .lt from rfl]
  | _ :: _, [], _, r, t => by
    simp [listKey, List.compare_cons_cons, show compare (1 : Int) 0 = .gt from rfl]
  | a :: as, b :: bs, h, r, t => by
    obtain ⟨first, rest⟩ := List.forall_mem_cons.1 h
    simp [listKey, List.compare_cons_cons, first b, compare_listKey as bs rest,
      Ordering.then_assoc]

theorem KeyOf.list [Ord α] {key : α → List Int} (h : KeyOf key) : KeyOf (listKey key) :=
  fun as bs => compare_listKey as bs fun a _ => h a

theorem list_beq_iff_compare [Ord α] [BEq α] {as bs : List α}
    (each : ∀ a ∈ as, ∀ b, (a == b) = true ↔ compare a b = .eq) :
    (as == bs) = true ↔ compare as bs = .eq := by
  induction as generalizing bs with
  | nil => cases bs <;> simp
  | cons a as ih =>
    obtain ⟨first, rest⟩ := List.forall_mem_cons.1 each
    cases bs with
    | nil => simp
    | cons b bs => simp [List.compare_cons_cons, first b, ih rest]

theorem compare_natCast (a b : Nat) : compare (a : Int) (b : Int) = compare a b := by
  simp only [compare, compareOfLessAndEq, Int.ofNat_lt, Int.ofNat_inj]

theorem compare_toInt (a b : Int64) : compare a.toInt b.toInt = compare a b := by
  simp only [compare, compareOfLessAndEq, Int64.lt_iff_toInt_lt, Int64.toInt_inj]

theorem KeyOf.slot : KeyOf fun s : Slot => [(s.id : Int)] := fun a b r t => by
  simp [List.compare_cons_cons, compare_natCast, Slot.compare_def]

theorem KeyOf.char : KeyOf fun c : Char => [(c.toNat : Int)] := fun a b r t => by
  simp only [List.cons_append, List.nil_append, List.compare_cons_cons, compare_natCast]
  congr 1
  simp only [compare, compareOfLessAndEq, Char.lt_def, Char.toNat, UInt32.lt_iff_toNat_lt,
    UInt32.toNat_inj, Char.ext_iff]

namespace Datum

def key : Datum → List Int
  | integer i => [3, i.toInt]
  | text s => 4 :: listKey (fun c => [(c.toNat : Int)]) s.toList
  | d => [(d.rank : Int)]

theorem keyOf : KeyOf key := fun a b r t => by
  rcases a with _ | (_ | _) | i | s <;> rcases b with _ | (_ | _) | j | s'
  case integer.integer =>
    change compare ([3, i.toInt] ++ r) ([3, j.toInt] ++ t) = (compare i j).then (compare r t)
    simp [List.compare_cons_cons, compare_toInt]
  case text.text =>
    change compare (4 :: (listKey _ s.toList ++ r)) (4 :: (listKey _ s'.toList ++ t)) =
      (compare s.toList s'.toList).then (compare r t)
    simp [List.compare_cons_cons, KeyOf.char.list s.toList]
  all_goals rfl

theorem compare_eq_iff {d e : Datum} : compare d e = .eq ↔ d = e := by
  constructor
  · intro same
    rcases d with _ | (_ | _) | i | s <;> rcases e with _ | (_ | _) | j | t
    case integer.integer => exact congrArg integer (Std.LawfulEqOrd.eq_of_compare same)
    case text.text => exact congrArg text (String.toList_inj.1 (Std.LawfulEqOrd.eq_of_compare same))
    all_goals cases same <;> rfl
  · rintro rfl
    have : Std.TransOrd Datum := keyOf.transOrd
    exact Std.ReflCmp.compare_self

end Datum

namespace Expr

def rank : Expr → Nat
  | slot _ => 0 | literal _ => 1 | unary .. => 2 | binary .. => 3 | variadic .. => 4
  | aggregate .. => 5 | window .. => 6 | subquery .. => 7

mutual

protected def compare : Expr → Expr → Ordering
  | slot s, slot t => Ord.compare s t
  | literal d, literal e => Ord.compare d e
  | unary f a, unary g b => (Ord.compare f g).then (a.compare b)
  | binary f a b, binary g c d =>
    (Ord.compare f g).then ((a.compare c).then (b.compare d))
  | variadic f as, variadic g bs => (Ord.compare f g).then (compareList as bs)
  | aggregate f a d, aggregate g b e =>
    (Ord.compare f g).then ((a.compare b).then (Ord.compare d e))
  | window f as ps os, window g bs qs rs =>
    (Ord.compare f g).then
      ((compareList as bs).then ((compareList ps qs).then (compareList os rs)))
  | subquery k h as ss, subquery l i bs ts =>
    (Ord.compare k l).then
      ((Ord.compare h i).then ((compareList as bs).then (Ord.compare ss ts)))
  | a, b => Ord.compare a.rank b.rank

def compareList : List Expr → List Expr → Ordering
  | [], [] => .eq
  | [], _ :: _ => .lt
  | _ :: _, [] => .gt
  | a :: as, b :: bs => (a.compare b).then (compareList as bs)

end

instance : Ord Expr := ⟨Expr.compare⟩

mutual

/-- Equal expressions are the same up to the names of slots. -/
protected def beq : Expr → Expr → Bool
  | slot s, slot t => s == t
  | literal d, literal e => d == e
  | unary f a, unary g b => f == g && a.beq b
  | binary f a b, binary g c d => f == g && (a.beq c && b.beq d)
  | variadic f as, variadic g bs => f == g && beqList as bs
  | aggregate f a d, aggregate g b e => f == g && (a.beq b && d == e)
  | window f as ps os, window g bs qs rs =>
    f == g && (beqList as bs && (beqList ps qs && beqList os rs))
  | subquery k h as ss, subquery l i bs ts => k == l && (h == i && (beqList as bs && ss == ts))
  | _, _ => false

def beqList : List Expr → List Expr → Bool
  | [], [] => true
  | a :: as, b :: bs => a.beq b && beqList as bs
  | _, _ => false

end

instance : BEq Expr := ⟨Expr.beq⟩

mutual

def key : Expr → List Int
  | slot s => [0, (s.id : Int)]
  | literal d => 1 :: d.key
  | unary f a => 2 :: (f.rank : Int) :: a.key
  | binary f a b => 3 :: (f.rank : Int) :: (a.key ++ b.key)
  | variadic f as => 4 :: (f.rank : Int) :: keyList as
  | aggregate f a d => 5 :: (f.rank : Int) :: (a.key ++ [(d.toNat : Int)])
  | window f as ps os => 6 :: (f.position : Int) :: (keyList as ++ keyList ps ++ keyList os)
  | subquery k h as ss =>
    7 :: (k.rank : Int) :: (h.toNat : Int) ::
      (keyList as ++ listKey (fun s : Slot => [(s.id : Int)]) ss)

def keyList : List Expr → List Int
  | [] => [0]
  | e :: es => 1 :: (e.key ++ keyList es)

end

theorem keyList_eq (es : List Expr) : keyList es = listKey key es := by
  induction es with
  | nil => rfl
  | cons e es ih => simp [keyList, listKey, ih]

theorem compareList_eq (as bs : List Expr) : compareList as bs = compare as bs := by
  induction as generalizing bs with
  | nil => cases bs <;> rfl
  | cons a as ih =>
    cases bs with
    | nil => rfl
    | cons b bs => simp only [compareList, ih, List.compare_cons_cons]; rfl

theorem compare_toNat (a b : Bool) : compare a.toNat b.toNat = compare a b := by
  cases a <;> cases b <;> rfl

theorem compare_handle (a b : UInt64) : compare a.toNat b.toNat = compare a b := by
  simp only [compare, compareOfLessAndEq, UInt64.lt_iff_toNat_lt, UInt64.toNat_inj]

theorem compare_def (a b : Expr) : compare a b = a.compare b := rfl

theorem keyOf : KeyOf key := fun a => by
  induction a using induct with
  | step a ih =>
    intro b r t
    cases a <;> cases b
    case slot.slot s s' =>
      simpa [key, compare_def, Expr.compare, List.compare_cons_cons] using KeyOf.slot s s' r t
    case literal.literal d d' =>
      simpa [key, compare_def, Expr.compare, List.compare_cons_cons] using Datum.keyOf d d' r t
    case unary.unary f a g b =>
      have first := ih a (by simp [children])
      simp [key, compare_def, Expr.compare, List.compare_cons_cons, compare_natCast, first,
        UnaryFunc.compare_def, Ordering.then_assoc]
    case binary.binary f a b g c d =>
      have first := ih a (by simp [children])
      have second := ih b (by simp [children])
      simp [key, compare_def, Expr.compare, List.compare_cons_cons, compare_natCast, first,
        second, BinaryFunc.compare_def, Ordering.then_assoc]
    case variadic.variadic f as g bs =>
      have args := compare_listKey as bs fun a h => ih a (by simpa [children] using h)
      simp [key, compare_def, Expr.compare, List.compare_cons_cons, compare_natCast,
        compareList_eq, keyList_eq, args, VariadicFunc.compare_def, Ordering.then_assoc]
    case aggregate.aggregate f a d g b d' =>
      have arg := ih a (by simp [children])
      simp [key, compare_def, Expr.compare, List.compare_cons_cons, compare_natCast, arg,
        AggregateFunc.compare_def, compare_toNat, Ordering.then_assoc]
    case window.window f as ps os g bs qs rs =>
      have args := compare_listKey as bs fun a h => ih a (by simp [children, h])
      have partitions := compare_listKey ps qs fun a h => ih a (by simp [children, h])
      have orders := compare_listKey os rs fun a h => ih a (by simp [children, h])
      simp [key, compare_def, Expr.compare, List.compare_cons_cons, compare_natCast,
        compareList_eq, keyList_eq, args, partitions, orders, WindowFunc.compare_def,
        Ordering.then_assoc]
    case subquery.subquery k h as ss l i bs ts =>
      have args := compare_listKey as bs fun a h => ih a (by simpa [children] using h)
      simp [key, compare_def, Expr.compare, List.compare_cons_cons, compare_natCast,
        compareList_eq, keyList_eq, args, KeyOf.slot.list ss ts, SubqueryKind.compare_def,
        compare_handle, Ordering.then_assoc]
    all_goals rfl

instance : Std.TransOrd Expr := keyOf.transOrd

theorem beq_def (a b : Expr) : (a == b) = a.beq b := rfl

theorem beqList_eq (as bs : List Expr) : beqList as bs = (as == bs) := by
  induction as generalizing bs with
  | nil => cases bs <;> rfl
  | cons a as ih =>
    cases bs with
    | nil => rfl
    | cons b bs => rw [beqList, ih, List.cons_beq_cons, beq_def]

theorem beq_iff_compare {a b : Expr} : (a == b) = true ↔ compare a b = .eq := by
  induction a using induct generalizing b with
  | step a ih =>
    rw [beq_def, compare_def]
    cases a <;> cases b
    case slot.slot s t => simp [Expr.beq, Expr.compare, Slot.compare_eq_iff]
    case literal.literal d e => simp [Expr.beq, Expr.compare, Datum.compare_eq_iff]
    case unary.unary f a g b =>
      have arg := @ih a (by simp [children]) b
      simp [Expr.beq, Expr.compare, ← beq_def, ← compare_def, arg, UnaryFunc.compare_eq_iff]
    case binary.binary f a b g c d =>
      have left := @ih a (by simp [children]) c
      have right := @ih b (by simp [children]) d
      simp [Expr.beq, Expr.compare, ← beq_def, ← compare_def, left, right,
        BinaryFunc.compare_eq_iff]
    case variadic.variadic f as g bs =>
      have args : (as == bs) = true ↔ compare as bs = .eq :=
        list_beq_iff_compare fun a mem b => @ih a mem b
      simp [Expr.beq, Expr.compare, beqList_eq, compareList_eq, args, VariadicFunc.compare_eq_iff]
    case aggregate.aggregate f a d g b e =>
      have arg := @ih a (by simp [children]) b
      simp [Expr.beq, Expr.compare, ← beq_def, ← compare_def, arg, AggregateFunc.compare_eq_iff]
    case window.window f as ps os g bs qs rs =>
      have args : (as == bs) = true ↔ compare as bs = .eq :=
        list_beq_iff_compare fun a mem b => @ih a (by simp [children, mem]) b
      have partitions : (ps == qs) = true ↔ compare ps qs = .eq :=
        list_beq_iff_compare fun a mem b => @ih a (by simp [children, mem]) b
      have orders : (os == rs) = true ↔ compare os rs = .eq :=
        list_beq_iff_compare fun a mem b => @ih a (by simp [children, mem]) b
      simp [Expr.beq, Expr.compare, beqList_eq, compareList_eq, args, partitions, orders,
        WindowFunc.compare_eq_iff]
    case subquery.subquery k h as ss l i bs ts =>
      have args : (as == bs) = true ↔ compare as bs = .eq :=
        list_beq_iff_compare fun a mem b => @ih a mem b
      have correlated : (ss == ts) = true ↔ compare ss ts = .eq :=
        list_beq_iff_compare fun s _ t => Slot.beq_iff.trans Slot.compare_eq_iff.symm
      simp [Expr.beq, Expr.compare, beqList_eq, compareList_eq, args, correlated,
        SubqueryKind.compare_eq_iff]
    all_goals simp [Expr.beq, Expr.compare, rank]

theorem slot_beq_iff {s : Slot} {e : Expr} :
    (slot s == e) = true ↔ ∃ t, e = slot t ∧ s.id = t.id := by
  rw [beq_def]
  cases e <;> simp [Expr.beq]

end Expr
end QueryPlan

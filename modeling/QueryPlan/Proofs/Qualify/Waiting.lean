import QueryPlan.Proofs.Qualify.Completeness

/-!
Waiting for completion. A completed qualify comes to stand under a projection, and only then has a
qualify stacked on it something to complete: it waits for those below it. Main statement: a qualify
waits less, or stays with nothing to wait for, as what it stands on is completed.
-/
namespace QueryPlan

abbrev Operator.isQualify : Operator → Bool
  | qualify _ => true
  | project .. | aggregate .. | filter _ | having _ | limit .. => false

namespace Plan
open Qualify

def underHaving : Plan → Plan
  | .having p _ => p
  | p => p

/-- The operators whose outputs a qualify over them can be completed with. -/
inductive Shape
  | aggregation (groupKey : List Expr) (outputs : List NamedExpr)
  | projection (projections : List NamedExpr)

def shape? : Plan → Option Shape
  | .aggregate _ groupKey outputs => some (.aggregation groupKey outputs)
  | .project _ projections _ => some (.projection projections)
  | _ => none

def Shape.Supplies (predicates : Conjuncts) : Shape → Prop
  | .aggregation groupKey outputs => AllSettled groupKey outputs predicates
  | .projection projections => ∀ e ∈ predicates.toList,
      e.containsWindow = false ∧ e.Within (projections.map NamedExpr.slot)

theorem shape?_cases {p : Plan} {shape : Shape} (found : p.shape? = some shape) :
    (∃ input groupKey outputs, p = .aggregate input groupKey outputs ∧
        shape = .aggregation groupKey outputs) ∨
      ∃ input projections distinct, p = .project input projections distinct ∧
        shape = .projection projections := by
  unfold shape? at found
  split at found
  · exact Or.inl ⟨_, _, _, rfl, (Option.some.inj found).symm⟩
  · exact Or.inr ⟨_, _, _, rfl, (Option.some.inj found).symm⟩
  · cases found

theorem underHaving_cases (p : Plan) :
    p = p.underHaving ∨ ∃ conditions, p = .having p.underHaving conditions := by
  unfold underHaving
  split
  · exact Or.inr ⟨_, rfl⟩
  · exact Or.inl rfl

theorem supplied_qualify_iff {p : Plan} {predicates : Conjuncts} :
    (p.qualify predicates).Supplied ↔
      ∀ shape, p.underHaving.shape? = some shape → shape.Supplies predicates := by
  have either (shape : Shape) : shape.Supplies predicates ↔
      ∀ s, some shape = some s → s.Supplies predicates :=
    ⟨fun holds s same => Option.some.inj same ▸ holds, fun all => all shape rfl⟩
  unfold Supplied
  split
  case h_1 same => cases same; exact either (.aggregation _ _)
  case h_2 same => cases same; exact either (.aggregation _ _)
  case h_3 same => cases same; exact either (.projection _)
  case h_4 same => cases same; exact either (.projection _)
  case h_5 havingAggregate aggregate havingProject project =>
    refine iff_of_true trivial fun shape found => ?_
    rcases shape?_cases found with ⟨_, _, _, under, _⟩ | ⟨_, _, _, under, _⟩
    · rcases underHaving_cases p with same | ⟨_, same⟩ <;> rw [under] at same <;> subst same
      · exact (aggregate _ _ _ _ rfl).elim
      · exact (havingAggregate _ _ _ _ _ rfl).elim
    · rcases underHaving_cases p with same | ⟨_, same⟩ <;> rw [under] at same <;> subst same
      · exact (project _ _ _ _ rfl).elim
      · exact (havingProject _ _ _ _ _ rfl).elim

instance : DecidablePred Supplied := fun p =>
  decidable_of_iff ((p.completeQualify? ⟨0⟩).isNone = true)
    (Option.isNone_iff_eq_none.trans completeQualify?_eq_none_iff)

/-- The sweeps that a qualify over the shape can take itself if something is missing: one over a
projection, and one more than the `cost` over an aggregation. -/
def Shape.backlog (cost : List Expr → List NamedExpr → Conjuncts → Nat) (predicates : Conjuncts) :
    Shape → Nat
  | .aggregation groupKey outputs => cost groupKey outputs predicates + 1
  | .projection _ => 1

section
variable (cost : List Expr → List NamedExpr → Conjuncts → Nat)

def backlog : Plan → Nat
  | .qualify p predicates =>
    if (p.qualify predicates).Supplied then 0
    else p.underHaving.shape?.elim 0 (Shape.backlog cost predicates)
  | _ => 0

def after (others : Nat) : Nat := if others = 0 then 0 else others + 1

/-- The sweeps until a node is completed, those of the qualifies it is stacked on included. -/
def wait : Plan → Nat
  | .qualify (.having p conditions) predicates =>
    backlog cost (.qualify (.having p conditions) predicates) + after p.wait
  | .qualify p predicates => backlog cost (.qualify p predicates) + after p.wait
  | _ => 0

end

section
variable {cost : List Expr → List NamedExpr → Conjuncts → Nat} {p x x' : Plan}
  {predicates : Conjuncts}

theorem wait_qualify : (p.qualify predicates).wait cost =
    backlog cost (p.qualify predicates) + after (p.underHaving.wait cost) := by
  unfold underHaving
  split
  · rw [wait]
  · rename_i other
    rw [wait]
    exact fun q c same => other q c same

theorem wait_unary {o : Operator} (other : o.isQualify = false) (p : Plan) :
    (unary o p).wait cost = 0 := by
  cases o with
  | qualify predicates => cases other
  | _ => rw [wait] <;> simp

theorem wait_of_shape? {shape : Shape} (found : p.shape? = some shape) : p.wait cost = 0 := by
  rcases shape?_cases found with ⟨_, _, _, rfl, _⟩ | ⟨_, _, _, rfl, _⟩
  · exact wait_unary rfl _
  · exact wait_unary rfl _

theorem backlog_supplied (supplied : (p.qualify predicates).Supplied) :
    backlog cost (p.qualify predicates) = 0 := if_pos supplied

variable (cost) in
theorem backlog_unsupplied (missing : ¬ (p.qualify predicates).Supplied) :
    ∃ shape, p.underHaving.shape? = some shape ∧
      backlog cost (p.qualify predicates) = shape.backlog cost predicates := by
  cases found : p.underHaving.shape? with
  | none => exact (missing (supplied_qualify_iff.2 (by simp [found]))).elim
  | some shape =>
    refine ⟨shape, rfl, ?_⟩
    rw [backlog, if_neg missing, found]
    rfl

theorem Shape.backlog_pos (shape : Shape) : 0 < shape.backlog cost predicates := by
  cases shape <;> exact Nat.succ_pos _

variable (cost) in
theorem wait_unsupplied (missing : ¬ (p.qualify predicates).Supplied) :
    ∃ shape, p.underHaving.shape? = some shape ∧
      (p.qualify predicates).wait cost = shape.backlog cost predicates := by
  obtain ⟨shape, found, same⟩ := backlog_unsupplied cost missing
  refine ⟨shape, found, ?_⟩
  rw [wait_qualify, same, wait_of_shape? found]
  rfl

variable (cost) in
theorem wait_pos {p : Plan} (missing : ¬ p.Supplied) : 0 < p.wait cost := by
  cases p with
  | get | join => exact (missing trivial).elim
  | unary o p =>
    cases o with
    | qualify predicates =>
      obtain ⟨shape, _, same⟩ := wait_unsupplied cost missing
      exact same ▸ shape.backlog_pos
    | _ => exact (missing trivial).elim

theorem wait_supplied (supplied : (p.qualify predicates).Supplied) :
    (p.qualify predicates).wait cost = after (p.underHaving.wait cost) := by
  rw [wait_qualify, backlog_supplied supplied, Nat.zero_add]

theorem backlog_congr (same : x'.underHaving.shape? = x.underHaving.shape?) :
    backlog cost (x'.qualify predicates) = backlog cost (x.qualify predicates) := by
  have supplied : (x'.qualify predicates).Supplied ↔ (x.qualify predicates).Supplied := by
    rw [supplied_qualify_iff, supplied_qualify_iff, same]
  simp only [backlog, supplied, same]

end

/-- A qualify waits less or has come to stand under a projection, and all else stays. -/
inductive Turned (cost : List Expr → List NamedExpr → Conjuncts → Nat) : Plan → Plan → Prop
  | get {r} : Turned cost (.get r) (.get r)
  | join {j l l' r r'} : Turned cost (.join j l r) (.join j l' r')
  | kept {o x x'} (other : o.isQualify = false) (below : Turned cost x x') :
      Turned cost (.unary o x) (.unary o x')
  | sooner {x x' ps qs} (less : (qualify x' qs).wait cost ≤ (qualify x ps).wait cost - 1) :
      Turned cost (qualify x ps) (qualify x' qs)
  | projected {x x' ps os d} (waits : 0 < (qualify x ps).wait cost) :
      Turned cost (qualify x ps) (project x' os d)

section
variable {cost : List Expr → List NamedExpr → Conjuncts → Nat} {p q x x' : Plan}
  {predicates : Conjuncts}

theorem Turned.underHaving (turned : Turned cost x x') :
    Turned cost x.underHaving x'.underHaving := by
  cases turned with
  | @kept o x x' other below =>
    cases o with
    | having conditions => exact below
    | _ => exact .kept other below
  | get => exact .get
  | join => exact .join
  | sooner less => exact .sooner less
  | projected waits => exact .projected waits

theorem Turned.shape? (turned : Turned cost x x') :
    (x'.shape? = x.shape? ∧ x'.wait cost ≤ x.wait cost - 1) ∨
      (x.shape? = none ∧ 0 < x.wait cost ∧ ∃ projections,
        x'.shape? = some (.projection projections)) := by
  cases turned with
  | get | join => exact Or.inl ⟨rfl, Nat.zero_le _⟩
  | @kept o x x' other below =>
    refine Or.inl ⟨?_, ?_⟩
    · cases o <;> rfl
    · rw [wait_unary other]
      exact Nat.zero_le _
  | sooner less => exact Or.inl ⟨rfl, less⟩
  | projected waits => exact Or.inr ⟨rfl, waits, _, rfl⟩

theorem Turned.wait_qualify (turned : Turned cost x x') :
    (x'.qualify predicates).wait cost ≤ (x.qualify predicates).wait cost ∧
      ((x.qualify predicates).Supplied →
        (x'.qualify predicates).wait cost ≤ (x.qualify predicates).wait cost - 1) := by
  rcases turned.underHaving.shape? with ⟨same, less⟩ | ⟨none, waits, projections, found⟩
  · have waits : after (x'.underHaving.wait cost) ≤ after (x.underHaving.wait cost) - 1 := by
      unfold after
      split <;> split <;> omega
    rw [Plan.wait_qualify, Plan.wait_qualify, backlog_congr same]
    constructor
    · omega
    · intro supplied
      rw [backlog_supplied supplied]
      omega
  · have supplied : (x.qualify predicates).Supplied := supplied_qualify_iff.2 (by simp [none])
    have once : (x'.qualify predicates).wait cost ≤ 1 := by
      by_cases missing : (x'.qualify predicates).Supplied
      · rw [wait_supplied missing, wait_of_shape? found]
        exact Nat.zero_le _
      · obtain ⟨shape, found', same⟩ := wait_unsupplied cost missing
        rw [found] at found'
        cases found'
        exact Nat.le_of_eq same
    have twice : 2 ≤ (x.qualify predicates).wait cost := by
      rw [wait_supplied supplied]
      unfold after
      split <;> omega
    exact ⟨by omega, fun _ => by omega⟩

theorem Turned.wait_le (turned : Turned cost p q) : q.wait cost ≤ p.wait cost - 1 := by
  cases turned with
  | get | join => exact Nat.zero_le _
  | kept other =>
    rw [wait_unary other]
    exact Nat.zero_le _
  | sooner less => exact less
  | projected =>
    rw [wait_unary rfl]
    exact Nat.zero_le _

end
end Plan
end QueryPlan

import QueryPlan.Proofs.Analysis.Derivation
import QueryPlan.Proofs.Plan.Equality
import QueryPlan.Proofs.Qualify.Schema

namespace QueryPlan
namespace Qualify

theorem projectFrame?_eq_none_iff {predicates : Conjuncts} {projections : List NamedExpr}
    {distinct : Bool} {supply : Supply} :
    projectFrame? predicates projections distinct supply = none ↔
      completion? predicates (.ofList (projections.map NamedExpr.slot)) supply = none := by
  constructor
  · intro none
    cases found : completion? predicates (.ofList (projections.map NamedExpr.slot)) supply with
    | none => rfl
    | some completion =>
      rw [projectFrame?_some distinct found] at none
      cases none
  · exact projectFrame?_none distinct

theorem havingProjectFrame?_eq_none_iff {predicates conditions : Conjuncts}
    {projections : List NamedExpr} {distinct : Bool} {supply : Supply} :
    havingProjectFrame? predicates conditions projections distinct supply = none ↔
      completion? predicates (.ofList (projections.map NamedExpr.slot)) supply = none := by
  constructor
  · intro none
    cases found : completion? predicates (.ofList (projections.map NamedExpr.slot)) supply with
    | none => rfl
    | some completion =>
      cases distinct with
      | true =>
        rw [havingProjectFrame?_some_distinct conditions found] at none
        cases none
      | false =>
        rw [havingProjectFrame?_some conditions found] at none
        cases none
  · exact havingProjectFrame?_none conditions distinct

def Replaces (predicates : Conjuncts) (q : Plan) : Prop :=
  ∃ o x, q = .unary o x ∧ (o == .qualify predicates) = false

theorem replaces_projectSlots (predicates : Conjuncts) (p : Plan) (slots : List Slot)
    (distinct : Bool) : Replaces predicates (p.projectSlots slots distinct) :=
  ⟨_, _, rfl, rfl⟩

section
variable {predicates : Conjuncts} {supply next : Supply} {frame : Frame}

theorem replaces_projectFrame? {projections : List NamedExpr} {distinct : Bool}
    (found : projectFrame? predicates projections distinct supply = some (frame, next))
    (input : Plan) : Replaces predicates (frame input) := by
  obtain ⟨completion, _, built⟩ := Option.bind_eq_some_iff.1 found
  cases built
  exact replaces_projectSlots ..

theorem replaces_havingProjectFrame? {conditions : Conjuncts} {projections : List NamedExpr}
    {distinct : Bool}
    (found : havingProjectFrame? predicates conditions projections distinct supply =
      some (frame, next)) (input : Plan) : Replaces predicates (frame input) := by
  obtain ⟨completion, _, built⟩ := Option.bind_eq_some_iff.1 found
  cases built
  cases distinct <;> exact replaces_projectSlots ..

theorem replaces_overAggregate {groupKey : List Expr} {outputs : List NamedExpr}
    {conditions : Option Conjuncts} {resolved : Conjuncts}
    (changed : ¬ (resolved == predicates) = true) (input : Plan) :
    Replaces predicates (overAggregate groupKey outputs conditions resolved input) := by
  have differ : (Operator.qualify resolved == .qualify predicates) = false :=
    Bool.eq_false_iff.2 changed
  cases conditions with
  | none => exact ⟨_, _, rfl, differ⟩
  | some conditions => exact ⟨_, _, rfl, differ⟩

theorem replaces_aggregateFrame? {groupKey : List Expr} {outputs : List NamedExpr}
    {conditions : Option Conjuncts}
    (found : aggregateFrame? predicates conditions groupKey outputs supply = some (frame, next))
    (input : Plan) : Replaces predicates (frame input) := by
  obtain ⟨_, ⟨_, rfl⟩ | ⟨changed, _, rfl⟩⟩ := aggregateFrame?_some (r := ⟨outputs, supply⟩) found
  · exact replaces_projectSlots ..
  · exact replaces_overAggregate changed input

end

end Qualify

namespace Plan
open Qualify

/-- No predicate that the node holds refers to something its input lacks. -/
def Supplied : Plan → Prop
  | .qualify (.having (.aggregate _ groupKey outputs) _) predicates
  | .qualify (.aggregate _ groupKey outputs) predicates =>
    ∀ e ∈ predicates.toList, ∀ part ∈ e.postorder, Settled groupKey outputs part
  | .qualify (.having (.project _ projections _) _) predicates
  | .qualify (.project _ projections _) predicates =>
    ∀ e ∈ predicates.toList,
      e.containsWindow = false ∧ e.Within (projections.map NamedExpr.slot)
  | _ => True

def isProjection : Plan → Bool
  | .project .. | .having (.project ..) _ => true
  | _ => false

def isAggregation : Plan → Bool
  | .aggregate .. | .having (.aggregate ..) _ => true
  | _ => false

theorem Supplied.of_projection {input : Plan} {predicates : Conjuncts}
    (supplied : (input.qualify predicates).Supplied) (shape : input.isProjection = true) :
    ∀ e ∈ predicates.toList, e.containsWindow = false ∧ e.Within input.output := by
  unfold isProjection at shape
  split at shape
  · exact supplied
  · exact supplied
  · cases shape

theorem Supplied.of_aggregation {input : Plan} {predicates : Conjuncts}
    (supplied : (input.qualify predicates).Supplied) (shape : input.isAggregation = true) :
    ∀ e ∈ predicates.toList, e.containsAggregate = false := by
  intro e mem
  rw [Expr.containsAggregate_eq_false_iff]
  intro part sub
  unfold isAggregation at shape
  split at shape
  · exact (supplied e mem part sub).isAggregate
  · exact (supplied e mem part sub).isAggregate
  · cases shape

theorem completeQualify?_eq_none_iff {p : Plan} {s : Supply} :
    p.completeQualify? s = none ↔ p.Supplied := by
  unfold completeQualify?
  split
  case h_1 =>
    exact Option.map_eq_none_iff.trans (aggregateFrame?_eq_none_iff (r := ⟨_, s⟩))
  case h_2 =>
    exact Option.map_eq_none_iff.trans
      (havingProjectFrame?_eq_none_iff.trans completion?_eq_none_iff)
  case h_3 =>
    exact Option.map_eq_none_iff.trans (aggregateFrame?_eq_none_iff (r := ⟨_, s⟩))
  case h_4 =>
    exact Option.map_eq_none_iff.trans (projectFrame?_eq_none_iff.trans completion?_eq_none_iff)
  case h_5 noHavingAggregate noHavingProject noAggregate noProject =>
    refine iff_of_true rfl ?_
    unfold Supplied
    split
    case h_1 => exact (noHavingAggregate _ _ _ _ _ rfl).elim
    case h_2 => exact (noAggregate _ _ _ _ rfl).elim
    case h_3 => exact (noHavingProject _ _ _ _ _ rfl).elim
    case h_4 => exact (noProject _ _ _ _ rfl).elim
    case h_5 => trivial

theorem replaces_completeQualify? {p q : Plan} {s t : Supply}
    (completed : p.completeQualify? s = some (q, t)) :
    ∃ input predicates, p = .qualify input predicates ∧ Replaces predicates q := by
  unfold completeQualify? at completed
  split at completed
  case h_5 => cases completed
  all_goals
    refine ⟨_, _, rfl, ?_⟩
    obtain ⟨⟨frame, t⟩, built, same⟩ := Option.map_eq_some_iff.1 completed
    cases same
  case h_1 => exact replaces_aggregateFrame? built _
  case h_2 => exact replaces_havingProjectFrame? built _
  case h_3 => exact replaces_aggregateFrame? built _
  case h_4 => exact replaces_projectFrame? built _

theorem completeRoot_supplied {p : Plan} (supplied : p.Supplied) (s : Supply) :
    p.completeRoot s = (p, s) :=
  completeRoot_eq_self (completeQualify?_eq_none_iff.2 supplied)

theorem completeRoot_cases {p q : Plan} {s t : Supply} (root : p.completeRoot s = (q, t)) :
    (p = q ∧ p.Supplied) ∨
      ∃ input predicates, p = .qualify input predicates ∧ Replaces predicates q := by
  cases completed : p.completeQualify? s with
  | none =>
    rw [completeRoot_eq_self completed] at root
    exact Or.inl ⟨congrArg Prod.fst root, completeQualify?_eq_none_iff.1 completed⟩
  | some next =>
    rw [completeRoot_eq completed] at root
    cases root
    exact Or.inr (replaces_completeQualify? completed)

def Everywhere (P : Plan → Prop) (p : Plan) : Prop := ∀ node ∈ p.postorder, P node

section
variable {P : Plan → Prop} {p l r : Plan}

theorem everywhere_unary {o : Operator} :
    (unary o p).Everywhere P ↔ p.Everywhere P ∧ P (unary o p) := by
  simp [Everywhere, postorder, or_imp, forall_and]

theorem everywhere_join {j : Join} :
    (join j l r).Everywhere P ↔ l.Everywhere P ∧ r.Everywhere P ∧ P (join j l r) := by
  simp [Everywhere, postorder, or_imp, forall_and]

theorem Everywhere.root (all : p.Everywhere P) : P p := all p (mem_postorder_self p)

end

def Complete (p : Plan) : Prop := ∀ node ∈ p.postorder, node.Supplied

theorem complete_unary {o : Operator} {p : Plan} (root : (unary o p).Supplied)
    (input : p.Complete) : (unary o p).Complete := everywhere_unary.2 ⟨input, root⟩

theorem complete_join {j : Join} {l r : Plan} (left : l.Complete) (right : r.Complete) :
    (join j l r).Complete := everywhere_join.2 ⟨left, right, trivial⟩

theorem Swept.complete_of_beq {P : Plan → Plan → Prop} {p q : Plan} {s t : Supply}
    (visit : Swept P p s q t) (equal : (q == p) = true) : q = p ∧ p.Complete := by
  induction visit with
  | get root =>
    rcases completeRoot_cases root with ⟨rfl, supplied⟩ | ⟨_, _, _, _, _, shape, _⟩
    · refine ⟨rfl, fun node mem => ?_⟩
      exact List.mem_singleton.1 mem ▸ supplied
    · cases shape
  | unary root input _ _ ih =>
    rcases completeRoot_cases root with ⟨rfl, supplied⟩ | ⟨_, _, rfl, _, _, shape, differ⟩
    · rw [beq_unary, Bool.and_eq_true] at equal
      obtain ⟨rfl, complete⟩ := ih equal.2
      exact ⟨rfl, complete_unary supplied complete⟩
    · -- The inputs may well be equal, but the operators are not.
      cases shape
      rw [beq_unary, differ] at equal
      cases equal
  | join root left right _ _ ihl ihr =>
    rcases completeRoot_cases root with ⟨rfl, supplied⟩ | ⟨_, _, _, _, _, shape, _⟩
    · simp only [beq_join, Bool.and_eq_true] at equal
      obtain ⟨rfl, completeLeft⟩ := ihl equal.1.2
      obtain ⟨rfl, completeRight⟩ := ihr equal.2
      exact ⟨rfl, complete_join completeLeft completeRight⟩
    · cases shape

theorem Swept.eq_of_complete {P : Plan → Plan → Prop} {p q : Plan} {s t : Supply}
    (visit : Swept P p s q t) (complete : p.Complete) : q = p := by
  have supplied := complete p (mem_postorder_self p)
  induction visit with
  | get root =>
    rw [completeRoot_supplied supplied] at root
    exact (congrArg Prod.fst root).symm
  | unary root input _ _ ih =>
    rw [completeRoot_supplied supplied] at root
    cases root
    have below := fun node mem => complete node (List.mem_append_left _ mem)
    rw [ih below (below _ (mem_postorder_self _))]
  | join root left right _ _ ihl ihr =>
    rw [completeRoot_supplied supplied] at root
    cases root
    have inLeft := fun node mem =>
      complete node (List.mem_append_left _ (List.mem_append_left _ mem))
    have inRight := fun node mem =>
      complete node (List.mem_append_left _ (List.mem_append_right _ mem))
    rw [ihl inLeft (inLeft _ (mem_postorder_self _)),
      ihr inRight (inRight _ (mem_postorder_self _))]

end Plan
namespace Qualify

/-- Nothing in the predicates, however deep, asks for more than the columns: there is no window
call, and each column that is read, be it inside a call or by a subquery, is among them. -/
def Provides (columns : List Slot) (predicates : Conjuncts) : Prop :=
  ∀ e ∈ predicates.toList, ∀ part ∈ e.postorder,
    match part with
    | .window .. => False
    | .slot s => s.id ∈ columns.map Slot.id
    | .subquery _ _ _ correlated => ∀ s ∈ correlated, s.id ∈ columns.map Slot.id
    | _ => True

theorem provides_iff {columns : List Slot} {predicates : Conjuncts} :
    Provides columns predicates ↔
      ∀ e ∈ predicates.toList, e.containsWindow = false ∧ e.Within columns := by
  unfold Provides
  refine forall₂_congr fun e _ => ?_
  rw [Expr.containsWindow_eq_false_iff, Expr.within_iff_parts, ← forall₂_and]
  refine forall₂_congr fun part _ => ?_
  cases part <;> simp [Expr.isWindow, Expr.ownSlots]

end Qualify

namespace Plan
open Qualify

section
variable {predicates : Conjuncts} {supply : Supply} {child : Plan}

theorem completeProject?_eq_none_iff :
    child.completeProject? predicates supply = none ↔
      (∀ input projections distinct, child ≠ .project input projections distinct) ∨
        Provides child.output predicates := by
  unfold completeProject?
  split
  case h_1 input projections distinct =>
    rw [Option.map_eq_none_iff, projectFrame?_eq_none_iff, completion?_eq_none_iff,
      ← provides_iff]
    exact (or_iff_right fun other => other _ _ _ rfl).symm
  case h_2 other =>
    exact iff_of_true rfl (Or.inl fun input projections distinct =>
      other projections distinct input)

theorem completeHavingProject?_eq_none_iff :
    child.completeHavingProject? predicates supply = none ↔
      (∀ input projections distinct conditions,
          child ≠ .having (.project input projections distinct) conditions) ∨
        Provides child.output predicates := by
  unfold completeHavingProject?
  split
  case h_1 input projections distinct conditions =>
    rw [Option.map_eq_none_iff, havingProjectFrame?_eq_none_iff, completion?_eq_none_iff,
      ← provides_iff]
    exact (or_iff_right fun other => other _ _ _ _ rfl).symm
  case h_2 other =>
    exact iff_of_true rfl (Or.inl fun input projections distinct conditions =>
      other conditions projections distinct input)

end

/-- A rule declines exactly what is not its shape and what is not in need of anything; a having in
between makes no difference, whatever its conditions. -/
theorem projection_declined_iff (predicates : Conjuncts) (child : Plan) (supply : Supply) :
    (child.completeProject? predicates supply = none ↔
        (∀ input projections distinct, child ≠ .project input projections distinct) ∨
          Provides child.output predicates) ∧
      (child.completeHavingProject? predicates supply = none ↔
        (∀ input projections distinct conditions,
            child ≠ .having (.project input projections distinct) conditions) ∨
          Provides child.output predicates) ∧
      ∀ conditions, (child.having conditions).completeHavingProject? predicates supply = none ↔
        child.completeProject? predicates supply = none := by
  refine ⟨completeProject?_eq_none_iff, completeHavingProject?_eq_none_iff, fun conditions => ?_⟩
  rw [completeProject?_eq_none_iff, completeHavingProject?_eq_none_iff]
  refine or_congr ?_ Iff.rfl
  constructor
  · intro other input projections distinct shape
    exact other input projections distinct conditions (shape ▸ rfl)
  · intro other input projections distinct conditions' shape
    cases shape
    exact other _ _ _ rfl

end Plan
end QueryPlan

import QueryPlan.Proofs.Optimizer.Convergence
import QueryPlan.Proofs.Qualify.Nodes

/-!
Identifiers over whole runs. Main statement: whatever passes run, the identifiers that a plan
produces are those it produced before and, each once, those taken from the supply; and the optimizer
takes none that occurs anywhere in the plan, so columns that are told apart stay so.
-/
namespace QueryPlan

namespace Pass
variable {round : Plan → Supply → Outcome} {exhausted : PassError}

theorem iterate_relates {R : Supply → Supply → Plan → Plan → Prop} (refl : ∀ s p, R s s p p)
    (trans : ∀ {s t u p q r}, R s t p q → R t u q r → R s u p r)
    (each : ∀ p s, R s (round p s).supply p (round p s).plan) (limit : Nat) (plan : Plan)
    (supply : Supply) :
    R supply (iterate round exhausted limit plan supply).supply plan
      (iterate round exhausted limit plan supply).plan := by
  induction limit generalizing plan supply with
  | zero => exact refl supply plan
  | succ limit ih =>
    have once := each plan supply
    rw [iterate]
    split
    · rename_i found
      rw [found] at once
      exact once
    · rename_i next s found
      rw [found] at once
      split
      · exact once
      · exact trans once (ih next s)

end Pass

namespace Qualify.Compositional
variable {R : Supply → Supply → List Node → List Node → Prop}

theorem fillUpQualify (compositional : Compositional R) (config : Config) (plan : Plan)
    (supply : Supply) :
    R supply (Rule.fillUpQualify.run config plan supply).supply plan.nodes
      (Rule.fillUpQualify.run config plan supply).plan.nodes := by
  by_cases enabled : config.enableFillUpQualify = true
  · rw [Rule.run_fillUpQualify_enabled enabled]
    exact compositional.sweepQualify plan supply
  · rw [Rule.run_fillUpQualify_disabled enabled]
    exact compositional.refl supply _

theorem fixpoint (compositional : Compositional R) (config : Config) (name : String) (plan : Plan)
    (supply : Supply) :
    R supply ((Pass.fixpoint name [.rule .fillUpQualify]).run config plan supply).supply plan.nodes
      ((Pass.fixpoint name [.rule .fillUpQualify]).run config plan supply).plan.nodes := by
  rw [Pass.run, Pass.runAll_singleton, Pass.run]
  apply Pass.iterate_relates (R := fun s t p q => R s t p.nodes q.nodes)
  · exact fun s p => compositional.refl s p.nodes
  · exact fun first second => compositional.trans first second
  · exact compositional.fillUpQualify config

theorem optimize (compositional : Compositional R) {config : Config} {plan p : Plan}
    (done : Optimizer.qualifyCompletion.optimize config plan = .ok p) :
    ∃ s, R plan.freshSupply s plan.nodes p.nodes := by
  obtain ⟨s, ran⟩ := Optimizer.optimize_ok_iff.1 done
  have related := compositional.fixpoint config "fill_up_qualify" plan plan.freshSupply
  rw [ran] at related
  exact ⟨s, related⟩

end Qualify.Compositional

open Qualify

namespace Node

def producedIds : Node → List SlotId
  | relation r => r.output.map Slot.id
  | operator o => computedIds o.columns
  | join _ => []

end Node

def producedIds (nodes : List Node) : List SlotId := nodes.flatMap Node.producedIds

/-- The identifiers taken from the supply are produced, each once, besides those there were. -/
structure Accounts (s t : Supply) (before after : List Node) : Prop where
  next_le : s.next ≤ t.next
  produced : (producedIds after).Perm (producedIds before ++ taken s t)

@[simp] theorem producedIds_nil : producedIds [] = [] := rfl

@[simp] theorem producedIds_append (first second : List Node) :
    producedIds (first ++ second) = producedIds first ++ producedIds second :=
  List.flatMap_append

@[simp] theorem producedIds_operator (o : Operator) (rest : List Node) :
    producedIds (.operator o :: rest) = computedIds o.columns ++ producedIds rest := rfl

theorem producedIds_aggregateOperators (groupKey : List Expr) (outputs : List NamedExpr)
    (conditions : Option Conjuncts) (predicates : Conjuncts) :
    producedIds ((aggregateOperators groupKey outputs conditions predicates).map .operator) =
      computedIds outputs := by
  cases conditions <;> exact List.append_nil _

theorem Qualify.Expanded.accounts {s t : Supply} {before after : List Operator}
    (expanded : Expanded s t before after) :
    Accounts s t (before.map .operator) (after.map .operator) := by
  obtain ⟨added, adds, same⟩ : ∃ added, Adds s t added ∧
      producedIds (after.map .operator) =
        producedIds (before.map .operator) ++ computedIds added := by
    cases expanded with
    | project columns adds | having columns adds | distinctHaving columns kept adds =>
      refine ⟨_, adds, ?_⟩
      simp only [List.map_cons, List.map_nil, producedIds_operator, Operator.columns,
        computedIds_columns, computedIds_append, computedIds_nil, List.nil_append, producedIds_nil,
        List.append_nil]
    | resolved adds | extended columns adds =>
      refine ⟨_, adds, ?_⟩
      simp only [List.map_cons, producedIds_operator, producedIds_aggregateOperators,
        Operator.columns, computedIds_columns, computedIds_append, List.nil_append]
  refine ⟨adds.next_le, .of_eq ?_⟩
  rw [same, adds.ids]

theorem accounts_compositional : Compositional Accounts where
  refl s ns := ⟨Nat.le_refl _, by simp⟩
  trans := by
    intro s t u ns ns' ns'' first second
    refine ⟨Nat.le_trans first.next_le second.next_le, second.produced.trans ?_⟩
    rw [← taken_append first.next_le second.next_le, ← List.append_assoc]
    exact first.produced.append_right _
  append := by
    intro s t u ns ns' ms ms' first second
    refine ⟨Nat.le_trans first.next_le second.next_le, ?_⟩
    rw [producedIds_append, producedIds_append, ← taken_append first.next_le second.next_le]
    refine (first.produced.append second.produced).trans ?_
    -- What the first part takes comes before what the second produced, and must go behind it.
    rw [List.append_assoc, List.append_assoc]
    exact (List.perm_append_comm_assoc ..).append_left _
  expanded := Expanded.accounts

section
variable {s : Slot}

theorem NamedExpr.of_mem_slots {columns : List NamedExpr} {c : NamedExpr} (mem : c ∈ columns)
    (read : s ∈ c.expr.slots) : s ∈ columns.map NamedExpr.slot ∨
      ∃ e ∈ columns.filterMap (fun c => c.alias?.map Alias.expr), s ∈ e.slots := by
  cases c with
  | column t =>
    obtain rfl : s = t := List.mem_singleton.1 read
    exact Or.inl (List.mem_map.2 ⟨_, mem, rfl⟩)
  | aliased a => exact Or.inr ⟨a.expr, List.mem_filterMap.2 ⟨_, mem, rfl⟩, read⟩

theorem Operator.of_mem_slots {o : Operator} (occurs : s ∈ (Node.operator o).slots) :
    s ∈ o.columns.map NamedExpr.slot ∨ ∃ e ∈ o.expressions, s ∈ e.slots := by
  rcases List.mem_append.1 occurs with column | reading
  · exact Or.inl column
  · obtain ⟨e, held, read⟩ := List.mem_flatMap.1 reading
    cases o with
    | project projections distinct =>
      obtain ⟨c, mem, rfl⟩ := List.mem_map.1 held
      exact NamedExpr.of_mem_slots mem read
    | aggregate groupKey outputs =>
      rcases List.mem_append.1 held with key | output
      · exact Or.inr ⟨e, List.mem_append_left _ key, read⟩
      · obtain ⟨c, mem, rfl⟩ := List.mem_map.1 output
        refine (NamedExpr.of_mem_slots mem read).imp_right fun ⟨e, held, read⟩ => ?_
        exact ⟨e, List.mem_append_right _ held, read⟩
    | filter | having | qualify => exact Or.inr ⟨e, held, read⟩
    | limit => cases held

theorem Operator.columns_subset_output (o : Operator) (below : List Slot) :
    o.columns.map NamedExpr.slot ⊆ o.output below := by
  cases o with
  | project | aggregate => exact List.Subset.refl _
  | filter | having | qualify | limit => exact List.nil_subset _

theorem Plan.of_mem_slots {p : Plan} (occurs : s ∈ p.root.slots) :
    s ∈ p.output ∨ ∃ e ∈ p.expressions, s ∈ e.slots := by
  cases p with
  | get r => exact Or.inl occurs
  | unary o p =>
    refine (Operator.of_mem_slots occurs).imp_left fun column => ?_
    exact o.columns_subset_output p.output column
  | join j l r => exact Or.inr (List.mem_flatMap.1 occurs)

theorem Plan.lt_freshSupply_of_occurs {p : Plan} (occurs : s ∈ p.nodes.flatMap Node.slots) :
    s.id < p.freshSupply.next := by
  obtain ⟨n, mem, occurs⟩ := List.mem_flatMap.1 occurs
  obtain ⟨q, there, rfl⟩ := exists_of_mem_nodes mem
  rcases of_mem_slots occurs with column | ⟨e, held, read⟩
  · exact lt_freshSupply there (List.mem_append_left _ column)
  · have reads : e.ReadsOnly (· < p.freshSupply.next) := fun t read =>
      lt_freshSupply there (List.mem_append_right _ (List.mem_flatMap.2 ⟨e, held, read⟩))
    obtain ⟨part, sub, own⟩ := List.mem_flatMap.1 read
    exact Expr.readsOnly_iff_parts.1 reads part sub s own

end

theorem Node.exists_of_mem_producedIds {n : Node} {id : SlotId} (mem : id ∈ n.producedIds) :
    ∃ s ∈ n.slots, s.id = id := by
  cases n with
  | relation r => exact List.mem_map.1 mem
  | operator o =>
    obtain ⟨a, computes, rfl⟩ := List.mem_map.1 mem
    obtain ⟨c, listed, found⟩ := List.mem_filterMap.1 computes
    cases c with
    | column => cases found
    | aliased b =>
      cases found
      exact ⟨a.slot, List.mem_append_left _ (List.mem_map.2 ⟨_, listed, rfl⟩), rfl⟩
  | join => cases mem

theorem Plan.lt_freshSupply_of_produced {p : Plan} {id : SlotId} (mem : id ∈ producedIds p.nodes) :
    id < p.freshSupply.next := by
  obtain ⟨n, there, produced⟩ := List.mem_flatMap.1 mem
  obtain ⟨s, occurs, rfl⟩ := n.exists_of_mem_producedIds produced
  exact lt_freshSupply_of_occurs (List.mem_flatMap.2 ⟨n, there, occurs⟩)

theorem Accounts.nodup {s t : Supply} {before after : List Node}
    (accounts : Accounts s t before after) (below : ∀ id ∈ producedIds before, id < s.next)
    (distinct : (producedIds before).Nodup) : (producedIds after).Nodup := by
  rw [accounts.produced.nodup_iff, List.nodup_append]
  refine ⟨distinct, List.nodup_range', fun id old later new same => ?_⟩
  have above := (List.mem_range'_1.1 new).1
  rw [← same] at above
  exact Nat.not_lt_of_le above (below id old)

namespace Plan

def Shape.drawn (predicates : Conjuncts) (s : Supply) : Shape → Supply
  | .aggregation groupKey outputs => (resolve groupKey predicates ⟨outputs, s⟩).2.supply
  | .projection _ => (extraction predicates s).2.supply

/-- The supply as the rule for the plan leaves it. The rule looks for what is missing, and draws
identifiers for what it finds, before it can tell whether there is a completion to return. -/
def drawn (s : Supply) : Plan → Supply
  | .qualify p predicates => p.underHaving.shape?.elim s (Shape.drawn predicates s)
  | _ => s

theorem Shape.drawn_supplied (shape : Shape) {predicates : Conjuncts}
    (supplies : shape.Supplies predicates) (s : Supply) : shape.drawn predicates s = s := by
  cases shape with
  | aggregation groupKey outputs =>
    rw [drawn, resolve_settled (r := ⟨outputs, s⟩) supplies]
  | projection projections =>
    rw [drawn, extraction,
      Expr.replaceAll_stable fun p mem => stable_of_plain (supplies p mem).1 _]

theorem drawn_of_none {p : Plan} {s : Supply} (nothing : p.completeQualify? s = none) :
    p.drawn s = s := by
  have supplied := completeQualify?_eq_none_iff.1 nothing
  unfold drawn
  split
  case h_1 predicates q =>
    cases found : q.underHaving.shape? with
    | none => rfl
    | some shape => exact shape.drawn_supplied (supplied_qualify_iff.1 supplied shape found) s
  case h_2 => rfl

theorem drawn_of_some {p q : Plan} {s t : Supply} (completed : p.completeQualify? s = some (q, t)) :
    p.drawn s = t := by
  unfold completeQualify? at completed
  split at completed
  case h_5 => cases completed
  all_goals obtain ⟨frame, found, _⟩ := exists_frame completed
  case h_1 | h_3 => exact (aggregateFrame?_some (r := ⟨_, s⟩) found).1.symm
  case h_2 | h_4 =>
    obtain ⟨completion, missing, built⟩ := Option.bind_eq_some_iff.1 found
    cases built
    exact (supply_completion? missing).symm

end Plan

/-- The optimizer starts above every identifier that occurs in the plan. Each identifier that a
sweep, rounds of it or the optimizer takes is produced once besides what the plan produced; what a
rule draws is taken, and it draws nothing where it has nothing to complete. -/
theorem Optimizer.qualifyCompletion_accounts (config : Config) (plan : Plan) (supply : Supply) :
    (∀ s ∈ plan.nodes.flatMap Node.slots, s.id < plan.freshSupply.next) ∧
      Accounts supply (Rule.fillUpQualify.run config plan supply).supply plan.nodes
        (Rule.fillUpQualify.run config plan supply).plan.nodes ∧
      (∀ name, Accounts supply
        ((Pass.fixpoint name [.rule .fillUpQualify]).run config plan supply).supply plan.nodes
        ((Pass.fixpoint name [.rule .fillUpQualify]).run config plan supply).plan.nodes) ∧
      (∀ (node : Plan) s, (node.completeQualify? s = none → node.drawn s = s) ∧
        ∀ q t, node.completeQualify? s = some (q, t) → node.drawn s = t) ∧
      ∀ p, qualifyCompletion.optimize config plan = .ok p →
        (∃ t, Accounts plan.freshSupply t plan.nodes p.nodes) ∧
          ((producedIds plan.nodes).Nodup → (producedIds p.nodes).Nodup) := by
  refine ⟨fun s occurs => Plan.lt_freshSupply_of_occurs occurs,
    accounts_compositional.fillUpQualify config plan supply,
    fun name => accounts_compositional.fixpoint config name plan supply,
    fun node s => ⟨Plan.drawn_of_none, fun q t => Plan.drawn_of_some⟩, fun p done => ?_⟩
  obtain ⟨t, accounts⟩ := accounts_compositional.optimize done
  exact ⟨⟨t, accounts⟩, accounts.nodup fun id mem => Plan.lt_freshSupply_of_produced mem⟩

open Optimizer.Sample in
theorem Optimizer.qualifyCompletion_accounts_numbered :
    (∃ s ∈ numbered.nodes.flatMap Node.slots, s = b ∧ s.id < numbered.freshSupply.next) ∧
      (∃ p t, qualifyCompletion.optimize {} numbered = .ok p ∧ (producedIds p.nodes).Nodup ∧
        Accounts ⟨3⟩ t numbered.nodes p.nodes) ∧
      (∃ q t, numbered.completeQualify? ⟨9⟩ = some (q, t) ∧ numbered.drawn ⟨9⟩ = t) ∧
      ∃ node : Plan, node.completeQualify? ⟨9⟩ = none ∧ node.drawn ⟨9⟩ = ⟨9⟩ := by
  obtain ⟨occurring, _, _, draws, kept⟩ := qualifyCompletion_accounts {} numbered ⟨9⟩
  refine ⟨?_, ?_, ⟨_, _, rfl, (draws numbered ⟨9⟩).2 _ _ rfl⟩, ?_⟩
  · have occurs : b ∈ numbered.nodes.flatMap Node.slots :=
      List.mem_flatMap.2 ⟨_, .head _, .tail _ (.head _)⟩
    exact ⟨b, occurs, rfl, occurring b occurs⟩
  · obtain ⟨⟨t, accounts⟩, distinct⟩ := kept _ rfl
    exact ⟨_, t, rfl, distinct (by decide), accounts⟩
  · exact ⟨(table.project [.column a] false).qualify (.ofList [.equality a a]), rfl,
      (draws _ ⟨9⟩).1 rfl⟩

end QueryPlan

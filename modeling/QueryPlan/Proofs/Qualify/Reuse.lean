import QueryPlan.Proofs.Expr.NameBlind
import QueryPlan.Proofs.Qualify.Correlation
import QueryPlan.Proofs.Qualify.Meaning

/-!
Outputs are computed once. Main statement: what is added to an aggregation is computed by no other
output, but for a key column that is passed through beside an alias of it; and resolving a predicate
is putting in the place of each largest part that an output in the end computes, columns apart, the
column of that output.
-/
namespace QueryPlan

theorem eq_map_of_forall₂ {f : α → β} {as : List α} {bs : List β}
    (each : List.Forall₂ (fun a b => b = f a) as bs) : bs = as.map f := by
  have same : as.map f = bs.map id := map_eq_of_forall₂ each fun _ _ equal => equal.symm
  rw [same, List.map_id]

namespace Qualify

/-- The column of each alias in place of what it computes; columns stand for themselves. -/
def references (outputs : List NamedExpr) : Substitution :=
  ((aliasesOf outputs).filter fun a => !a.expr.isSlot).map fun a => (a.expr, .slot a.slot)

section
variable {groupKey : List Expr} {first : List NamedExpr} {base r t u : Resolution} {e x : Expr}

theorem aliasFor?_mono {outputs wider : List NamedExpr} (grown : outputs <+: wider) {a : Alias}
    (known : aliasFor? outputs e = some a) : aliasFor? wider e = some a := by
  obtain ⟨added, rfl⟩ := grown
  rw [aliasFor?] at known ⊢
  rw [List.filterMap_append, List.find?_append, known, Option.some_or]

theorem lookup_references_slot (s : Slot) (outputs : List NamedExpr) :
    (references outputs).lookup (.slot s) = none := by
  cases found : (references outputs).lookup (.slot s) with
  | none => rfl
  | some value =>
    obtain ⟨key, mem, same⟩ := mem_of_lookup found
    obtain ⟨a, computed, pair⟩ := List.mem_map.1 mem
    cases pair
    obtain ⟨k, shape, _⟩ := Expr.slot_beq_iff.1 same
    rw [List.mem_filter, shape] at computed
    cases computed.2

theorem lookup_references (other : e.isSlot = false) (outputs : List NamedExpr) :
    (references outputs).lookup e = (aliasFor? outputs e).map fun a => .slot a.slot := by
  rw [references, aliasFor?, ← aliasesOf]
  induction aliasesOf outputs with
  | nil => rfl
  | cons a aliases ih =>
    cases same : a.expr == e with
    | true =>
      have kind : a.expr.isSlot = false := (Expr.isSlot_eq_of_alike same).trans other
      rw [List.filter_cons_of_pos (by rw [kind]; rfl), List.find?_cons, same, List.map_cons,
        List.lookup_cons, BEq.symm same]
      rfl
    | false =>
      have differ : (e == a.expr) = false := by
        rw [Bool.eq_false_iff]
        intro equal
        rw [BEq.symm equal] at same
        cases same
      rw [List.find?_cons, same, ← ih, List.filter_cons]
      split
      · rw [List.map_cons, List.lookup_cons, differ]
      · rfl

theorem substitute_references_slot (s : Slot) (outputs : List NamedExpr) :
    (Expr.slot s).substitute (references outputs) = .slot s := by
  rw [Expr.substitute_eq, lookup_references_slot]
  rfl

theorem substitute_references {a : Alias} (other : e.isSlot = false) {outputs : List NamedExpr}
    (known : aliasFor? outputs e = some a) :
    e.substitute (references outputs) = .slot a.slot := by
  rw [Expr.substitute_eq, lookup_references other, known]
  rfl

theorem aliasFor?_append_fresh (unknown : aliasFor? r.outputs e = none) :
    aliasFor? (r.outputs ++ [.aliased (Alias.freshUnnamed e r.supply).1]) e =
      some (Alias.freshUnnamed e r.supply).1 := by
  rw [aliasFor?] at unknown ⊢
  rw [List.filterMap_append, List.find?_append, unknown, Option.none_or]
  exact List.find?_cons_of_pos (p := fun a : Alias => a.expr == e) BEq.rfl

/-- Over whatever outputs there are in the end, the result is the expression with references put
in. -/
def Referred (groupKey : List Expr) (base t : Resolution) (e x : Expr) : Prop :=
  ∀ u, Extends groupKey base u → t.outputs <+: u.outputs → x = e.substitute (references u.outputs)

theorem Resolves.referred (step : Resolves groupKey r e x t) : Referred groupKey base t e x := by
  intro u _ grown
  cases step with
  | keep | pass => exact (substitute_references_slot _ _).symm
  | refer other known => exact (substitute_references other (aliasFor?_mono grown known)).symm
  | add other unknown =>
    exact (substitute_references other
      (aliasFor?_mono grown (aliasFor?_append_fresh unknown))).symm

theorem aliasFor?_of_idle (idle : resolveStep groupKey e r = none)
    (sofar : Extends groupKey base r) (ext : Extends groupKey base u) :
    aliasFor? u.outputs e = none := by
  have other := isSlot_of_resolveStep_none idle
  obtain ⟨unknown, plain, key⟩ := (settled_of_not_slot other).1 (settled_of_resolveStep_none idle)
  have old : ∀ a ∈ aliasesOf base.outputs, (a.expr == e) = false := by
    intro a mem
    have there : a ∈ aliasesOf r.outputs :=
      mem_aliasesOf.2 (sofar.grown.subset (mem_aliasesOf.1 mem))
    exact Bool.eq_false_iff.2 (List.find?_eq_none.1 unknown a there)
  exact ((settled_of_not_slot other).1 (settled_of_new other plain key old ext)).1

theorem referred_withChildren (idle : resolveStep groupKey e r = none)
    (sofar : Extends groupKey base r) {cs : List Expr}
    (parts : List.Forall₂ (Referred groupKey base t) e.children cs) :
    Referred groupKey base t e (e.withChildren cs) := by
  intro u ext grown
  have children : cs = e.children.map (·.substitute (references u.outputs)) :=
    eq_map_of_forall₂ (parts.imp fun c x referred => referred u ext grown)
  rw [Expr.substitute_eq, lookup_references (isSlot_of_resolveStep_none idle),
    aliasFor?_of_idle idle sofar ext, children]
  rfl

theorem resolved_eq_substitute (groupKey : List Expr) (predicates : Conjuncts) (r : Resolution) :
    (Expr.replaceAll (resolveStep groupKey) predicates.toList r).1 =
      predicates.toList.map
        (·.substitute (references (resolve groupKey predicates r).2.outputs)) := by
  have kept : Extends groupKey r (resolve groupKey predicates r).2 ∧
      r.outputs <+: (resolve groupKey predicates r).2.outputs ∧
      List.Forall₂ (Referred groupKey r (resolve groupKey predicates r).2) predicates.toList
        (Expr.replaceAll (resolveStep groupKey) predicates.toList r).1 := by
    refine Expr.replaceAll_keeps (A := fun _ => True)
      (R := fun s t : Resolution => s.outputs <+: t.outputs)
      ?_ ?_ ?_ ?_ ?_ ?_ (extends_refl groupKey r) (fun _ _ => trivial)
    · exact fun s => List.prefix_rfl
    · exact fun s t u first second => first.trans second
    · exact fun s t e x grown referred u ext more => referred u ext (grown.trans more)
    · intro s e x t found ext _
      have step := resolves_of_resolveStep found
      exact ⟨step.extends ext, step.grows, step.referred⟩
    · exact fun _ _ _ _ _ _ _ => trivial
    · exact fun s e cs t found ext _ parts => referred_withChildren found ext parts
  obtain ⟨ext, _, results⟩ := kept
  exact eq_map_of_forall₂ (results.imp fun p q referred => referred _ ext List.prefix_rfl)

/-- None of the added outputs computes what another does, those there were included, but for key
columns: they are passed through although an alias there is has the same column. -/
structure Additions (groupKey : List Expr) (first added : List NamedExpr) : Prop where
  distinct : added.Pairwise fun c d => (c.expr == d.expr) = false
  renamed : ∀ c ∈ added, ∀ d ∈ first, (d.expr == c.expr) = true →
    ∃ s a, c = .column s ∧ d = .aliased a
  passed : ∀ s, .column s ∈ added →
    groupKey.contains (.slot s) = true ∧ produces first s = false
  computed : ∀ a, .aliased a ∈ added → a.expr.isSlot = false

theorem additions_nil (groupKey : List Expr) (first : List NamedExpr) :
    Additions groupKey first [] where
  distinct := .nil
  renamed c mem := by cases mem
  passed s mem := by cases mem
  computed a mem := by cases mem

section
variable {added : List NamedExpr}

theorem exists_alias_of_hidden {outputs : List NamedExpr} {s : Slot} {d : NamedExpr}
    (hidden : produces outputs s = false) (mem : d ∈ outputs)
    (same : (d.expr == .slot s) = true) : ∃ a, d = .aliased a ∧ a.expr.isSlot = true := by
  cases d with
  | column k =>
    rw [produces, List.any_eq_false] at hidden
    obtain ⟨l, shape, id⟩ := Expr.slot_beq_iff.1 same
    cases shape
    exact (hidden _ mem (Slot.beq_iff.2 id)).elim
  | aliased a =>
    obtain ⟨l, shape, _⟩ := Expr.slot_beq_iff.1 (BEq.symm same)
    refine ⟨a, rfl, ?_⟩
    rw [show a.expr = .slot l from shape]
    rfl

theorem expr_ne_of_unknown {outputs : List NamedExpr} (other : e.isSlot = false)
    (unknown : aliasFor? outputs e = none) {d : NamedExpr} (mem : d ∈ outputs) :
    (d.expr == e) = false := by
  rw [Bool.eq_false_iff]
  intro same
  cases d with
  | column k =>
    obtain ⟨l, rfl, _⟩ := Expr.slot_beq_iff.1 same
    cases other
  | aliased a => exact List.find?_eq_none.1 unknown a (mem_aliasesOf.2 mem) same

theorem Additions.concat (kept : Additions groupKey first added) {c : NamedExpr}
    (distinct : ∀ d ∈ added, (d.expr == c.expr) = false)
    (renamed : ∀ d ∈ first, (d.expr == c.expr) = true → ∃ s a, c = .column s ∧ d = .aliased a)
    (passed : ∀ s, c = .column s →
      groupKey.contains (.slot s) = true ∧ produces first s = false)
    (computed : ∀ a, c = .aliased a → a.expr.isSlot = false) :
    Additions groupKey first (added ++ [c]) where
  distinct := by
    refine List.pairwise_append.2 ⟨kept.distinct, List.pairwise_singleton _ _, ?_⟩
    intro d mem _ new
    rw [List.mem_singleton.1 new]
    exact distinct d mem
  renamed := by
    rw [List.forall_mem_append, List.forall_mem_singleton]
    exact ⟨kept.renamed, renamed⟩
  passed s mem := (List.mem_append.1 mem).elim (kept.passed s) fun new =>
    passed s (List.mem_singleton.1 new).symm
  computed a mem := (List.mem_append.1 mem).elim (kept.computed a) fun new =>
    computed a (List.mem_singleton.1 new).symm

theorem Additions.pass (kept : Additions groupKey first added) {s : Slot}
    (hidden : produces (first ++ added) s = false) (key : groupKey.contains (.slot s) = true) :
    Additions groupKey first (added ++ [.column s]) := by
  refine kept.concat (fun d mem => ?_) (fun d mem same => ?_) (fun k same => ?_) nofun
  · rw [Bool.eq_false_iff]
    intro same
    obtain ⟨a, rfl, slot⟩ := exists_alias_of_hidden hidden (List.mem_append_right _ mem) same
    rw [kept.computed a mem] at slot
    cases slot
  · obtain ⟨a, shape, _⟩ := exists_alias_of_hidden hidden (List.mem_append_left _ mem) same
    exact ⟨s, a, rfl, shape⟩
  · cases same
    rw [produces, List.any_append, Bool.or_eq_false_iff] at hidden
    exact ⟨key, hidden.1⟩

theorem Additions.add (kept : Additions groupKey first added) {a : Alias}
    (other : a.expr.isSlot = false) (unknown : aliasFor? (first ++ added) a.expr = none) :
    Additions groupKey first (added ++ [.aliased a]) := by
  have differ {d : NamedExpr} (mem : d ∈ first ++ added) : (d.expr == a.expr) = false :=
    expr_ne_of_unknown other unknown mem
  refine kept.concat (fun d mem => ?_) (fun d mem same => ?_) nofun (fun b same => ?_)
  · exact differ (List.mem_append_right _ mem)
  · have apart := differ (List.mem_append_left _ mem)
    cases apart.symm.trans same
  · cases same
    exact other

theorem Resolves.additions (step : Resolves groupKey r e x t) (split : r.outputs = first ++ added)
    (kept : Additions groupKey first added) :
    ∃ more, t.outputs = first ++ more ∧ Additions groupKey first more := by
  cases step with
  | keep | refer => exact ⟨added, split, kept⟩
  | pass hidden key =>
    rw [split] at hidden ⊢
    exact ⟨_, List.append_assoc .., kept.pass hidden key⟩
  | add other unknown =>
    rw [split] at unknown ⊢
    exact ⟨_, List.append_assoc .., kept.add other unknown⟩

theorem additions_resolve (groupKey : List Expr) (predicates : Conjuncts) (r : Resolution) :
    ∃ added, (resolve groupKey predicates r).2.outputs = r.outputs ++ added ∧
      Additions groupKey r.outputs added := by
  have run : (∃ added, r.outputs = r.outputs ++ added ∧ Additions groupKey r.outputs added) →
      ∃ added, (resolve groupKey predicates r).2.outputs = r.outputs ++ added ∧
        Additions groupKey r.outputs added := by
    apply Expr.state_replaceAll
      (R := fun s t : Resolution =>
        (∃ added, s.outputs = r.outputs ++ added ∧ Additions groupKey r.outputs added) →
          ∃ added, t.outputs = r.outputs ++ added ∧ Additions groupKey r.outputs added)
    · exact fun s => id
    · exact fun s t u first second => second ∘ first
    · rintro s e x t found ⟨added, split, kept⟩
      exact (resolves_of_resolveStep found).additions split kept
  exact run ⟨[], (List.append_nil _).symm, additions_nil groupKey r.outputs⟩

end
end

/-- `d` is an alias of the column `c`, which the predicates read and no output passes through. -/
def Renames (groupKey : List Expr) (outputs : List NamedExpr) (resolved : Conjuncts)
    (d c : NamedExpr) : Prop :=
  ∃ a s, d = .aliased a ∧ c = .column s ∧ (a.expr == .slot s) = true ∧
    groupKey.contains (.slot s) = true ∧ produces outputs s = false ∧
    ∃ q ∈ resolved.toList, q.mentions s.id = true

section
variable {groupKey : List Expr} {outputs added : List NamedExpr} {predicates : Conjuncts}
  {supply : Supply}

theorem Additions.expr_beq_iff (kept : Additions groupKey outputs added)
    (built : (resolve groupKey predicates ⟨outputs, supply⟩).2.outputs = outputs ++ added)
    {c d : NamedExpr} (new : c ∈ added) (old : d ∈ outputs) :
    (d.expr == c.expr) = true ↔
      Renames groupKey outputs (resolve groupKey predicates ⟨outputs, supply⟩).1 d c := by
  constructor
  · intro same
    obtain ⟨s, a, rfl, rfl⟩ := kept.renamed c new d old same
    obtain ⟨key, hidden⟩ := kept.passed s new
    refine ⟨a, s, rfl, rfl, same, key, hidden, ?_⟩
    have mem : .column s ∈ (resolve groupKey predicates ⟨outputs, supply⟩).2.outputs :=
      built ▸ List.mem_append_right _ new
    refine (mentions_of_mem_outputs mem).resolve_left fun there => ?_
    have produced : produces outputs s = true := produces_iff.2 (id_mem_outputs there)
    rw [produced] at hidden
    cases hidden
  · rintro ⟨a, s, rfl, rfl, same, -⟩
    exact same

/-- Whether or not a having stands in between: the outputs added to the aggregation compute
different things, none of which an output there was computes, but for renamed key columns; and in
the predicates above, all that some output computes has become a reference to it. -/
theorem added_outputs_computed_once {input fragment : Plan} {next : Supply}
    (completed : (input.aggregate groupKey outputs).completeAggregate? predicates supply =
        some (fragment, next) ∨
      ∃ conditions, ((input.aggregate groupKey outputs).having conditions).completeHavingAggregate?
        predicates supply = some (fragment, next)) :
    ∃ conditions added resolved,
      overAggregate groupKey (outputs ++ added) conditions resolved input ∈ fragment.postorder ∧
      resolved =
        .ofList (predicates.toList.map (·.substitute (references (outputs ++ added)))) ∧
      (added.Pairwise fun c d => (c.expr == d.expr) = false) ∧
      ∀ c ∈ added, ∀ d ∈ outputs,
        ((d.expr == c.expr) = true ↔ Renames groupKey outputs resolved d c) := by
  obtain ⟨conditions, node⟩ : ∃ conditions, overAggregate groupKey
      (resolve groupKey predicates ⟨outputs, supply⟩).2.outputs conditions
        (resolve groupKey predicates ⟨outputs, supply⟩).1 input ∈ fragment.postorder := by
    rcases completed with completed | ⟨conditions, completed⟩
    · obtain ⟨frame, found, rfl⟩ := exists_frame completed
      exact ⟨none, mem_aggregateFrame? found⟩
    · obtain ⟨frame, found, rfl⟩ := exists_frame completed
      exact ⟨some conditions, mem_aggregateFrame? found⟩
  obtain ⟨added, built, kept⟩ := additions_resolve groupKey predicates ⟨outputs, supply⟩
  refine ⟨conditions, added, _, ?_, ?_, kept.distinct,
    fun c new d old => kept.expr_beq_iff built new old⟩
  · rwa [built] at node
  · rw [← built]
    exact congrArg SortedSet.ofList (resolved_eq_substitute groupKey predicates ⟨outputs, supply⟩)

end

open Shop in
theorem added_outputs_computed_once_crowded :
    ∃ fragment next, ((orders.aggregate groupings groupTotals).having
        large).completeHavingAggregate? (.ofList crowded) ⟨4⟩ = some (fragment, next) ∧
      ∃ conditions added resolved,
        overAggregate groupings (groupTotals ++ added) conditions resolved orders ∈
          fragment.postorder ∧
        resolved = .ofList ((SortedSet.ofList crowded).toList.map
          (·.substitute (references (groupTotals ++ added)))) ∧
        (added.Pairwise fun c d => (c.expr == d.expr) = false) ∧
        ∀ c ∈ added, ∀ d ∈ groupTotals,
          ((d.expr == c.expr) = true ↔ Renames groupings groupTotals resolved d c) := by
  have completed : ((orders.aggregate groupings groupTotals).having
      large).completeHavingAggregate? (.ofList crowded) ⟨4⟩ = some (_, _) := rfl
  exact ⟨_, _, completed, added_outputs_computed_once (Or.inr ⟨large, completed⟩)⟩

namespace Shop

def renamedPrice : NamedExpr := .aliased ⟨total, .slot price⟩

def costly (column : Slot) : Conjuncts :=
  .ofList [.binary .gt (.slot column) (.literal (.integer 1))]

end Shop

open Shop in
/-- The output `total` is `price` under another name, and still `price` is passed through. -/
theorem renamed_key_computed_twice :
    (orders.aggregate [.slot price] [renamedPrice]).completeAggregate? (costly price) ⟨4⟩ =
        some ((overAggregate [.slot price] [renamedPrice, .column price] none (costly price)
          orders).projectSlots [total] false, ⟨4⟩) ∧
      (renamedPrice.expr == (NamedExpr.column price).expr) = true :=
  ⟨rfl, by decide⟩

end Qualify
end QueryPlan

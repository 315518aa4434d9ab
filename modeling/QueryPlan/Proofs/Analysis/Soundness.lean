import QueryPlan.Analysis.EffectivePredicates
import QueryPlan.Proofs.Analysis.Derivation
import QueryPlan.Proofs.Expr.Parts
import QueryPlan.Proofs.Semantics.Rows

/-!
Effective predicates are true. Main statement: whatever the functions compute and whatever rows the
base relations hold, each predicate reported for a node reads only the node's columns and is true
on every row of the node, provided that inference is sound and that computed columns are columns of
their own.
-/
namespace QueryPlan

/-- Every predicate found is true on each row on which the given ones are. -/
def Interpretation.Sound (I : Interpretation) (infer : Inference) : Prop :=
  ∀ (predicates : Conjuncts) (row : Row), (∀ p ∈ predicates.toList, I.Holds row p) →
    ∀ p ∈ (infer predicates).toList, I.Holds row p

/-- A column that the node computes is no column of its input, a projection computes no column
twice, and nothing known of an aggregation's input mentions an aggregate call. -/
def Plan.Sited (infer : Inference) : Plan → Prop
  | .project p projections _ =>
    (computedIds projections).Nodup ∧ ∀ id ∈ computedIds projections, id ∉ p.output.map Slot.id
  | .aggregate p _ outputs =>
    (∀ id ∈ computedIds outputs, id ∉ p.output.map Slot.id) ∧
      ∀ fact ∈ (p.effectivePredicates infer).toList, fact.containsAggregate = false
  | _ => True

namespace EffectivePredicates
variable {infer : Inference}

theorem effectivePredicates_derive :
    Plan.effectivePredicates infer = Plan.derive (analysis infer) := by
  funext p
  rw [Plan.effectivePredicates, Derived.root?_of, Option.getD_some]

theorem effectivePredicates_eq (p : Plan) :
    p.effectivePredicates infer =
      match facts p (p.children.map (Plan.effectivePredicates infer)) with
      | some predicates => available infer p predicates
      | none => .empty := by
  rw [effectivePredicates_derive, Plan.derive_eq]
  rfl

theorem mem_available {node : Plan} {predicates : Conjuncts} {q : Expr}
    (h : q ∈ (available infer node predicates).toList) :
    (q ∈ predicates.toList ∨ q ∈ (infer predicates).toList) ∧ q.Within node.output := by
  rw [available, SortedSet.toList_filter, List.mem_filter, Plan.outputSet,
    Expr.isSubset_ofList_iff] at h
  exact ⟨SortedSet.mem_of_mem_extend h.1, h.2⟩

theorem within_output {p : Plan} {q : Expr} (mem : q ∈ (p.effectivePredicates infer).toList) :
    q.Within p.output := by
  rw [effectivePredicates_eq] at mem
  split at mem
  · exact (mem_available mem).2
  · cases mem

variable {I : Interpretation}

/-- Inference may look at columns that the node does not produce: it is judged on a `wide` row, of
which the node's row keeps the node's columns. -/
theorem holds_available (sound : I.Sound infer) {node : Plan} {predicates : Conjuncts}
    {row wide : Row} (known : ∀ p ∈ predicates.toList, I.Holds wide p)
    (agree : AgreeOn node.output row wide) {q : Expr}
    (mem : q ∈ (available infer node predicates).toList) : I.Holds row q := by
  obtain ⟨source, within⟩ := mem_available mem
  rw [Functions.holds_congr agree within]
  rcases source with given | inferred
  · exact known q given
  · exact sound predicates wide known q inferred

theorem holds_restate {below : Conjuncts} {producers : Substitution} {columns : List Slot}
    {source row : Row} (known : ∀ p ∈ below.toList, I.Holds source p)
    (within : ∀ p ∈ below.toList, p.Within columns) (agree : AgreeOn columns row source)
    (same : ∀ pair ∈ producers, I.eval row pair.2 = I.eval source pair.1) {q : Expr}
    (mem : q ∈ (restate below producers).toList) : I.Holds row q := by
  have all : I.Holds row ((Expr.andAll below.toList).substitute producers) := by
    rw [Functions.Holds, Functions.eval_substitute same agree (Expr.within_andAll within)]
    exact Interpretation.holds_andAll_iff.2 known
  exact Interpretation.holds_of_mem_conjuncts all (SortedSet.mem_of_mem_ofList mem)

theorem restate_aggregates {below : Conjuncts} {outputs : List NamedExpr}
    (plain : ∀ p ∈ below.toList, p.containsAggregate = false) :
    restate below (aggregateProducers outputs) = restate below [] := by
  have keys : ∀ pair ∈ aggregateProducers outputs, pair.1.containsAggregate = true := by
    intro pair mem
    rw [aggregateProducers, List.mem_reverse, List.mem_map] at mem
    obtain ⟨o, found, rfl⟩ := mem
    exact (List.mem_filter.1 found).2
  rw [restate, restate, Expr.substitute_aggregates (Expr.containsAggregate_andAll plain) keys,
    Expr.substitute_eq_self fun _ _ => rfl]

theorem effectivePredicates_filter (p : Plan) (predicates : Conjuncts) :
    (Plan.filter p predicates).effectivePredicates infer =
      available infer (.filter p predicates)
        ((SortedSet.ofList (filterFacts predicates)).extend
          (p.effectivePredicates infer).toList) := effectivePredicates_eq _

theorem effectivePredicates_project (p : Plan) (projections : List NamedExpr) (distinct : Bool) :
    (Plan.project p projections distinct).effectivePredicates infer =
      available infer (.project p projections distinct)
        (restate (p.effectivePredicates infer) (projectProducers projections)) :=
  effectivePredicates_eq _

theorem effectivePredicates_aggregate (p : Plan) (groupKey : List Expr)
    (outputs : List NamedExpr) :
    (Plan.aggregate p groupKey outputs).effectivePredicates infer =
      available infer (.aggregate p groupKey outputs)
        (restate (p.effectivePredicates infer) (aggregateProducers outputs)) :=
  effectivePredicates_eq _

theorem effectivePredicates_join (join : Join) (l r : Plan) :
    (Plan.join join l r).effectivePredicates infer =
      match joinFacts join (l.effectivePredicates infer) (r.effectivePredicates infer) with
      | some predicates => available infer (.join join l r) predicates
      | none => .empty := effectivePredicates_eq _

theorem holds_filter (sound : I.Sound infer) {p : Plan} {predicates : Conjuncts} {row : Row}
    (below : ∀ q ∈ (p.effectivePredicates infer).toList, I.Holds row q)
    (kept : ∀ e ∈ predicates.toList, I.Holds row e) {q : Expr}
    (mem : q ∈ ((Plan.filter p predicates).effectivePredicates infer).toList) : I.Holds row q := by
  rw [effectivePredicates_filter] at mem
  refine holds_available sound (fun fact known => ?_) (fun _ _ => rfl) mem
  rcases SortedSet.mem_of_mem_extend known with own | known
  · have term := List.mem_of_mem_filter (SortedSet.mem_of_mem_ofList own)
    obtain ⟨e, stated, term⟩ := List.mem_flatMap.1 term
    exact Interpretation.holds_of_mem_conjuncts (kept e stated) term
  · exact below fact known

/-- The row that has the computed columns of `row` and all others of `source`. -/
def overlay (outputs : List NamedExpr) (row source : Row) : Row := fun id =>
  if id ∈ computedIds outputs then row id else source id

theorem overlay_of_notMem {outputs : List NamedExpr} {row source : Row} {id : SlotId}
    (plain : id ∉ computedIds outputs) : overlay outputs row source id = source id :=
  if_neg plain

theorem agreeOn_overlay_source {outputs : List NamedExpr} {columns : List Slot} {row source : Row}
    (fresh : ∀ id ∈ computedIds outputs, id ∉ columns.map Slot.id) :
    AgreeOn columns (overlay outputs row source) source := by
  intro s mem
  exact overlay_of_notMem fun new => fresh _ new (List.mem_map_of_mem mem)

theorem mem_computedIds_or_mem_passed {outputs : List NamedExpr} {s : Slot}
    (mem : s ∈ outputs.map NamedExpr.slot) : s.id ∈ computedIds outputs ∨ s ∈ passed outputs := by
  obtain ⟨o, found, rfl⟩ := List.mem_map.1 mem
  cases o with
  | column s => exact Or.inr (List.mem_filterMap.2 ⟨_, found, rfl⟩)
  | aliased a =>
    exact Or.inl (List.mem_map.2 ⟨a, List.mem_filterMap.2 ⟨_, found, rfl⟩, rfl⟩)

theorem agreeOn_overlay {outputs : List NamedExpr} {row source : Row}
    (passes : Interpretation.Summarizes outputs source row) :
    AgreeOn (outputs.map NamedExpr.slot) row (overlay outputs row source) := by
  intro s mem
  by_cases new : s.id ∈ computedIds outputs
  · exact (if_pos new).symm
  · rw [overlay_of_notMem new]
    rcases mem_computedIds_or_mem_passed mem with computed | passed
    · exact absurd computed new
    · exact passes s passed new

theorem holds_project (sound : I.Sound infer) {p : Plan} {projections : List NamedExpr}
    {distinct : Bool} {source base : Row}
    (below : ∀ q ∈ (p.effectivePredicates infer).toList, I.Holds source q)
    (sited : (Plan.project p projections distinct).Sited infer) {q : Expr}
    (mem : q ∈ ((Plan.project p projections distinct).effectivePredicates infer).toList) :
    I.Holds (I.projected projections source base) q := by
  obtain ⟨once, fresh⟩ := sited
  have agree : AgreeOn p.output (overlay projections (I.projected projections source base) source)
      source := agreeOn_overlay_source fresh
  have same : ∀ pair ∈ projectProducers projections,
      I.eval (overlay projections (I.projected projections source base) source) pair.2 =
        I.eval source pair.1 := by
    intro pair produced
    obtain ⟨a, found, rfl⟩ := List.mem_map.1 produced
    have new : a.slot.id ∈ computedIds projections := List.mem_map_of_mem found
    exact (if_pos new).trans (Interpretation.projected_computed once found)
  have passes : AgreeOn (Plan.project p projections distinct).output
      (I.projected projections source base)
      (overlay projections (I.projected projections source base) source) :=
    agreeOn_overlay fun s passed plain => Interpretation.projected_passed passed plain
  rw [effectivePredicates_project] at mem
  refine holds_available sound (fun fact known => ?_) passes mem
  exact holds_restate below (fun _ => within_output) agree same known

theorem holds_aggregate (sound : I.Sound infer) {p : Plan} {groupKey : List Expr}
    {outputs : List NamedExpr} {source row : Row}
    (below : ∀ q ∈ (p.effectivePredicates infer).toList, I.Holds source q)
    (sited : (Plan.aggregate p groupKey outputs).Sited infer)
    (summarizes : Interpretation.Summarizes outputs source row) {q : Expr}
    (mem : q ∈ ((Plan.aggregate p groupKey outputs).effectivePredicates infer).toList) :
    I.Holds row q := by
  obtain ⟨fresh, plain⟩ := sited
  have agree : AgreeOn p.output (overlay outputs row source) source :=
    agreeOn_overlay_source fresh
  have passes : AgreeOn (Plan.aggregate p groupKey outputs).output row
      (overlay outputs row source) := agreeOn_overlay summarizes
  rw [effectivePredicates_aggregate] at mem
  refine holds_available sound (fun fact known => ?_) passes mem
  rw [restate_aggregates plain] at known
  exact holds_restate below (fun _ => within_output) agree (by simp) known

theorem holds_terms {join : Join} {row : Row} (met : ∀ e ∈ join.condition, I.Holds row e) {q : Expr}
    (mem : q ∈ join.condition.toList.flatMap Expr.conjuncts) : I.Holds row q := by
  obtain ⟨e, stated, term⟩ := List.mem_flatMap.1 mem
  exact Interpretation.holds_of_mem_conjuncts (met e (Option.mem_toList.1 stated)) term

theorem holds_join (sound : I.Sound infer) {join : Join} {l r : Plan} {ls rs : Set Row} {row : Row}
    (left : ∀ source ∈ ls, ∀ q ∈ (l.effectivePredicates infer).toList, I.Holds source q)
    (right : ∀ source ∈ rs, ∀ q ∈ (r.effectivePredicates infer).toList, I.Holds source q)
    (joined : I.JoinRow join l.output r.output ls rs row) {q : Expr}
    (mem : q ∈ ((Plan.join join l r).effectivePredicates infer).toList) : I.Holds row q := by
  have fromLeft {source wide : Row} (given : source ∈ ls) (agree : AgreeOn l.output wide source) :
      ∀ q ∈ (l.effectivePredicates infer).toList, I.Holds wide q := fun q known =>
    (Functions.holds_congr agree (within_output known)).2 (left source given q known)
  have fromRight {source wide : Row} (given : source ∈ rs) (agree : AgreeOn r.output wide source) :
      ∀ q ∈ (r.effectivePredicates infer).toList, I.Holds wide q := fun q known =>
    (Functions.holds_congr agree (within_output known)).2 (right source given q known)
  rw [effectivePredicates_join, joinFacts] at mem
  simp only [Interpretation.JoinRow] at joined
  have output : (Plan.join join l r).output =
      (if join.kind.outputsLeft then l.output else []) ++
        (if join.kind.outputsRight then r.output else []) := rfl
  -- A fact of a row that pairs two rows comes from one of them or from the condition.
  have paired {left right wide : Row} (hl : left ∈ ls) (hr : right ∈ rs)
      (met : I.Matches join l.output r.output left right wide) {fact : Expr}
      (known : fact ∈ (l.effectivePredicates infer).toList ∨
        fact ∈ (r.effectivePredicates infer).toList ∨
          fact ∈ join.condition.toList.flatMap Expr.conjuncts) : I.Holds wide fact := by
    rcases known with known | known | known
    · exact fromLeft hl met.1.1 fact known
    · exact fromRight hr met.1.2 fact known
    · exact holds_terms met.2 known
  cases kind : join.kind <;> simp only [kind] at mem joined
  case inner | cross =>
    obtain ⟨left, hl, right, hr, met⟩ := joined
    refine holds_available sound (fun fact known => paired hl hr met ?_) (fun _ _ => rfl) mem
    simpa [or_assoc] using SortedSet.mem_of_mem_ofList known
  case leftSemi =>
    obtain ⟨left, hl, ⟨right, hr, both, met⟩, kept⟩ := joined
    have agree : AgreeOn (Plan.join join l r).output row both := by
      intro s column
      rw [output, kind] at column
      have column : s ∈ l.output := by
        simpa [JoinKind.outputsLeft, JoinKind.outputsRight] using column
      exact (kept s column).trans (met.1.1 s column).symm
    refine holds_available sound (fun fact known => paired hl hr met ?_) agree mem
    exact (List.mem_append.1 (SortedSet.mem_of_mem_ofList known)).imp_right Or.inr
  case rightSemi =>
    obtain ⟨right, hr, ⟨left, hl, both, met⟩, kept⟩ := joined
    have agree : AgreeOn (Plan.join join l r).output row both := by
      intro s column
      rw [output, kind] at column
      have column : s ∈ r.output := by
        simpa [JoinKind.outputsLeft, JoinKind.outputsRight] using column
      exact (kept s column).trans (met.1.2 s column).symm
    refine holds_available sound (fun fact known => paired hl hr met ?_) agree mem
    exact Or.inr (List.mem_append.1 (SortedSet.mem_of_mem_ofList known))
  case leftOuter =>
    have kept : ∃ left ∈ ls, AgreeOn l.output row left := by
      rcases joined with ⟨left, hl, right, hr, met⟩ | ⟨left, hl, _, padded⟩
      · exact ⟨left, hl, met.1.1⟩
      · exact ⟨left, hl, padded.1⟩
    obtain ⟨left, hl, agree⟩ := kept
    exact holds_available sound (fromLeft hl agree) (fun _ _ => rfl) mem
  case rightOuter =>
    have kept : ∃ right ∈ rs, AgreeOn r.output row right := by
      rcases joined with ⟨left, hl, right, hr, met⟩ | ⟨right, hr, _, padded⟩
      · exact ⟨right, hr, met.1.2⟩
      · exact ⟨right, hr, padded.1⟩
    obtain ⟨right, hr, agree⟩ := kept
    exact holds_available sound (fromRight hr agree) (fun _ _ => rfl) mem
  case leftAnti =>
    obtain ⟨left, hl, _, agree⟩ := joined
    exact holds_available sound (fromLeft hl agree) (fun _ _ => rfl) mem
  case rightAnti =>
    obtain ⟨right, hr, _, agree⟩ := joined
    exact holds_available sound (fromRight hr agree) (fun _ _ => rfl) mem
  case fullOuter | nullAwareLeftAnti => cases mem

theorem holds_of_yields (sound : I.Sound infer) {plan : Plan} {rows : Set Row}
    (yields : I.Yields plan rows) (sited : ∀ node ∈ plan.postorder, node.Sited infer) {row : Row}
    (produced : row ∈ rows) {q : Expr} (mem : q ∈ (plan.effectivePredicates infer).toList) :
    I.Holds row q := by
  induction yields generalizing row q with
  | get r rows =>
    rw [effectivePredicates_eq] at mem
    cases mem
  | project projections distinct input ih =>
    obtain ⟨source, given, base, rfl⟩ := produced
    have below := fun node sub => sited node (List.mem_append_left _ sub)
    exact holds_project sound (fun _ => ih below given)
      (sited _ (Plan.mem_postorder_self _)) mem
  | aggregate groupKey outputs summaries input grouped ih =>
    obtain ⟨leader, _, source, ⟨given, _⟩, summarizes⟩ := grouped row produced
    have below := fun node sub => sited node (List.mem_append_left _ sub)
    exact holds_aggregate sound (fun _ => ih below given)
      (sited _ (Plan.mem_postorder_self _)) summarizes mem
  | filter predicates input ih =>
    have below := fun node sub => sited node (List.mem_append_left _ sub)
    exact holds_filter sound (fun _ => ih below produced.1) produced.2 mem
  | having | qualify | limit =>
    rw [effectivePredicates_eq] at mem
    cases mem
  | join join left right ihl ihr =>
    have sitedLeft := fun node sub =>
      sited node (List.mem_append_left _ (List.mem_append_left _ sub))
    have sitedRight := fun node sub =>
      sited node (List.mem_append_left _ (List.mem_append_right _ sub))
    exact holds_join sound (fun _ given _ => ihl sitedLeft given)
      (fun _ given _ => ihr sitedRight given) produced mem

end EffectivePredicates

/-- The pass records for each node the predicates of its subplan; these read only the node's columns
and are true on all of its rows. -/
theorem Plan.effectivePredicates_sound {I : Interpretation} {infer : Inference}
    (sound : I.Sound infer) {plan : Plan} (sited : ∀ node ∈ plan.postorder, node.Sited infer) :
    (Derived.of (EffectivePredicates.analysis infer) plan).results.toList =
        plan.postorder.map (Plan.effectivePredicates infer) ∧
      ∀ node ∈ plan.postorder, ∀ p ∈ (node.effectivePredicates infer).toList,
        p.Within node.output ∧
          ∀ rows, I.Yields node rows → ∀ row ∈ rows, I.Holds row p := by
  constructor
  · rw [EffectivePredicates.effectivePredicates_derive, Derived.of_eq]
  · intro node sub p mem
    constructor
    · exact EffectivePredicates.within_output mem
    · intro rows yields row produced
      have below := fun inner found => sited inner (Plan.mem_postorder_trans found sub)
      exact EffectivePredicates.holds_of_yields sound yields below produced mem

theorem Interpretation.sound_nothing {I : Interpretation} : I.Sound .nothing := by
  intro predicates row known p mem
  cases mem

def Interpretation.sample : Interpretation where
  unary _ _ := .null
  binary _ _ _ := .null
  variadic _ args := .boolean (args.all (· = .boolean true))
  aggregate _ _ _ := .boolean true
  window _ _ _ _ := .null
  subquery _ _ _ _ := .null
  and_true args := by simp

namespace SampleFacts

def flag : Slot := ⟨1, "flag"⟩

def other : Slot := ⟨2, "other"⟩

def known (fact : Expr) : Plan := .filter (.get ⟨"t", [flag]⟩) (.ofList [fact])

def total : Expr := .aggregate .sum (.slot flag) false

def falsity : Expr := .literal (.boolean false)

end SampleFacts

def SampleFacts.renamed : Plan :=
  (SampleFacts.known (.slot SampleFacts.flag)).project
    [.aliased ⟨SampleFacts.other, .slot SampleFacts.flag⟩] true

open SampleFacts in
theorem Plan.effectivePredicates_sound_renamed :
    ∃ p ∈ (renamed.effectivePredicates .nothing).toList,
      ∀ rows, Interpretation.sample.Yields renamed rows →
        ∀ row ∈ rows, Interpretation.sample.Holds row p := by
  have sited : ∀ node ∈ renamed.postorder, node.Sited .nothing := by
    simp [renamed, known, Plan.postorder, Plan.Sited, computedIds, computed, NamedExpr.alias?,
      Plan.output, Operator.output, flag, other]
  have sound := Plan.effectivePredicates_sound (I := .sample) Interpretation.sound_nothing sited
  have mem : Expr.slot other ∈ (renamed.effectivePredicates .nothing).toList :=
    List.mem_singleton_self _
  exact ⟨.slot other, mem, (sound.2 renamed (Plan.mem_postorder_self _) _ mem).2⟩

/-- A predicate reported for the plan is not true on some row that the plan can produce. -/
def Plan.Misreports (infer : Inference) (plan : Plan) : Prop :=
  ∃ I : Interpretation, I.Sound infer ∧ ∃ rows, I.Yields plan rows ∧
    ∃ row ∈ rows, ∃ p ∈ (plan.effectivePredicates infer).toList, ¬ I.Holds row p

namespace SampleFacts

def truth : Row := fun _ => .boolean true

def nulls : Row := fun _ => .null

theorem truth_known {fact : Expr} (holds : Interpretation.sample.Holds truth fact) :
    truth ∈ {row ∈ (Set.univ : Set Row) |
      ∀ e ∈ (SortedSet.ofList [fact]).toList, Interpretation.sample.Holds row e} := by
  refine ⟨trivial, fun e mem => ?_⟩
  rw [List.mem_singleton.1 (SortedSet.mem_of_mem_ofList mem)]
  exact holds

theorem misreports_project {fact p : Expr} {projections : List NamedExpr}
    (holds : Interpretation.sample.Holds truth fact)
    (mem : p ∈ (((known fact).project projections false).effectivePredicates .nothing).toList)
    (fails : ¬ Interpretation.sample.Holds
      (Interpretation.sample.projected projections truth nulls) p) :
    ((known fact).project projections false).Misreports .nothing :=
  ⟨.sample, Interpretation.sound_nothing, _, .project _ _ (.filter _ (.get _ Set.univ)),
    _, ⟨truth, truth_known holds, nulls, rfl⟩, p, mem, fails⟩

theorem misreports_aggregate {fact p : Expr} {outputs : List NamedExpr}
    (holds : Interpretation.sample.Holds truth fact)
    (summarizes : Interpretation.Summarizes outputs truth nulls)
    (mem : p ∈ (((known fact).aggregate [] outputs).effectivePredicates .nothing).toList)
    (fails : ¬ Interpretation.sample.Holds nulls p) :
    ((known fact).aggregate [] outputs).Misreports .nothing := by
  refine ⟨.sample, Interpretation.sound_nothing, {nulls}, ?_, nulls, rfl, p, mem, fails⟩
  apply Interpretation.Yields.aggregate _ _ _ (.filter _ (.get _ Set.univ))
  rintro row rfl
  exact ⟨truth, truth_known holds, truth, ⟨truth_known holds, by simp⟩, summarizes⟩

end SampleFacts

open SampleFacts in
/-- A projection that computes a column of its input anew, one that computes a column twice, an
aggregation that computes a column of its input anew, and one over a fact about its own total. -/
theorem Plan.misreports_without_sites :
    ((known (.slot flag)).project [.aliased ⟨flag, falsity⟩] false).Misreports .nothing ∧
      ((known (.slot flag)).project
        [.aliased ⟨other, .slot flag⟩, .aliased ⟨other, falsity⟩] false).Misreports .nothing ∧
      ((known (.slot flag)).aggregate [] [.aliased ⟨flag, total⟩]).Misreports .nothing ∧
      ((known total).aggregate [] [.aliased ⟨other, total⟩]).Misreports .nothing := by
  refine ⟨?_, ?_, ?_, ?_⟩
  · exact misreports_project (p := .slot flag) rfl (List.mem_singleton_self _) (by decide)
  · exact misreports_project (p := .slot other) rfl (List.mem_singleton_self _) (by decide)
  · exact misreports_aggregate (p := .slot flag) rfl (by simp [Interpretation.Summarizes, passed])
      (List.mem_singleton_self _) (by decide)
  · exact misreports_aggregate (p := .slot other) rfl (by simp [Interpretation.Summarizes, passed])
      (List.mem_singleton_self _) (by decide)

end QueryPlan

import QueryPlan.Proofs.Expr.NameBlind
import QueryPlan.Proofs.Plan.Equality

namespace QueryPlan

namespace Alias
variable {a b c : Alias}

theorem slot_alike (equal : Alike a b) : Alike a.slot b.slot := (Bool.and_eq_true_iff.1 equal).1

theorem expr_alike (equal : Alike a b) : Alike a.expr b.expr := (Bool.and_eq_true_iff.1 equal).2

instance : EquivBEq Alias where
  symm equal := Bool.and_eq_true_iff.2 ⟨BEq.symm (slot_alike equal), BEq.symm (expr_alike equal)⟩
  trans first second := Bool.and_eq_true_iff.2
    ⟨BEq.trans (slot_alike first) (slot_alike second),
      BEq.trans (expr_alike first) (expr_alike second)⟩

end Alias

namespace NamedExpr

inductive Similar : NamedExpr → NamedExpr → Prop
  | column {s t} (slot : Alike s t) : Similar (.column s) (.column t)
  | aliased {a b} (binding : Alike a b) : Similar (.aliased a) (.aliased b)

theorem alike_iff {c d : NamedExpr} : Alike c d ↔ Similar c d := by
  constructor
  · intro equal
    cases c <;> cases d
    case column.column => exact .column equal
    case aliased.aliased => exact .aliased equal
    all_goals cases equal
  · intro similar
    cases similar with
    | column slot => exact slot
    | aliased binding => exact binding

instance : EquivBEq NamedExpr where
  symm equal := alike_iff.2 <| by
    cases alike_iff.1 equal with
    | column slot => exact .column (BEq.symm slot)
    | aliased binding => exact .aliased (BEq.symm binding)
  trans first second := alike_iff.2 <| by
    cases alike_iff.1 first with
    | column slot =>
      cases alike_iff.1 second with
      | column slot' => exact .column (BEq.trans slot slot')
    | aliased binding =>
      cases alike_iff.1 second with
      | aliased binding' => exact .aliased (BEq.trans binding binding')

variable {c d : NamedExpr}

theorem slot_alike (equal : Alike c d) : Alike c.slot d.slot := by
  cases alike_iff.1 equal with
  | column slot => exact slot
  | aliased binding => exact Alias.slot_alike binding

theorem expr_alike (equal : Alike c d) : Alike c.expr d.expr := by
  cases alike_iff.1 equal with
  | column slot => exact Expr.slot_alike slot
  | aliased binding => exact Alias.expr_alike binding

theorem alias?_alike (equal : Alike c d) : Option.Rel Alike c.alias? d.alias? := by
  cases alike_iff.1 equal with
  | column => exact .none
  | aliased binding => exact .some binding

end NamedExpr

theorem slots_alike {columns columns' : List NamedExpr}
    (equal : List.Forall₂ Alike columns columns') :
    List.Forall₂ Alike (columns.map NamedExpr.slot) (columns'.map NamedExpr.slot) :=
  map_of_forall₂ equal fun _ _ => NamedExpr.slot_alike

theorem aliases_alike {columns columns' : List NamedExpr}
    (equal : List.Forall₂ Alike columns columns') :
    List.Forall₂ Alike (columns.filterMap NamedExpr.alias?)
      (columns'.filterMap NamedExpr.alias?) :=
  List.rel_filterMap (fun _ _ column => NamedExpr.alias?_alike column) equal

namespace Operator

inductive Similar : Operator → Operator → Prop
  | project {ps qs distinct} (columns : Alike ps qs) :
      Similar (.project ps distinct) (.project qs distinct)
  | aggregate {ks ls os ps} (keys : Alike ks ls) (outputs : Alike os ps) :
      Similar (.aggregate ks os) (.aggregate ls ps)
  | filter {ps qs} (predicates : Alike ps qs) : Similar (.filter ps) (.filter qs)
  | having {ps qs} (predicates : Alike ps qs) : Similar (.having ps) (.having qs)
  | qualify {ps qs} (predicates : Alike ps qs) : Similar (.qualify ps) (.qualify qs)
  | limit {n k} : Similar (.limit n k) (.limit n k)

theorem alike_iff {o o' : Operator} : Alike o o' ↔ Similar o o' := by
  constructor
  · intro equal
    cases o <;> cases o'
    case project.project =>
      obtain ⟨columns, distinct⟩ := Bool.and_eq_true_iff.1 equal
      cases eq_of_beq distinct
      exact .project columns
    case aggregate.aggregate =>
      obtain ⟨keys, outputs⟩ := Bool.and_eq_true_iff.1 equal
      exact .aggregate keys outputs
    case filter.filter => exact .filter equal
    case having.having => exact .having equal
    case qualify.qualify => exact .qualify equal
    case limit.limit =>
      obtain ⟨count, skipped⟩ := Bool.and_eq_true_iff.1 equal
      cases eq_of_beq count
      cases eq_of_beq skipped
      exact .limit
    all_goals cases equal
  · intro similar
    cases similar with
    | project columns => exact Bool.and_eq_true_iff.2 ⟨columns, BEq.rfl⟩
    | aggregate keys outputs => exact Bool.and_eq_true_iff.2 ⟨keys, outputs⟩
    | filter predicates | having predicates | qualify predicates => exact predicates
    | limit => exact BEq.rfl

instance : EquivBEq Operator where
  symm equal := alike_iff.2 <| by
    cases alike_iff.1 equal with
    | project columns => exact .project (BEq.symm columns)
    | aggregate keys outputs => exact .aggregate (BEq.symm keys) (BEq.symm outputs)
    | filter predicates => exact .filter (BEq.symm predicates)
    | having predicates => exact .having (BEq.symm predicates)
    | qualify predicates => exact .qualify (BEq.symm predicates)
    | limit => exact .limit
  trans first second := alike_iff.2 <| by
    cases alike_iff.1 first with
    | project columns =>
      cases alike_iff.1 second with
      | project columns' => exact .project (BEq.trans columns columns')
    | aggregate keys outputs =>
      cases alike_iff.1 second with
      | aggregate keys' outputs' =>
        exact .aggregate (BEq.trans keys keys') (BEq.trans outputs outputs')
    | filter predicates =>
      cases alike_iff.1 second with
      | filter predicates' => exact .filter (BEq.trans predicates predicates')
    | having predicates =>
      cases alike_iff.1 second with
      | having predicates' => exact .having (BEq.trans predicates predicates')
    | qualify predicates =>
      cases alike_iff.1 second with
      | qualify predicates' => exact .qualify (BEq.trans predicates predicates')
    | limit => exact alike_iff.1 second

variable {o o' : Operator}

theorem output_alike (similar : Similar o o') {below below' : List Slot}
    (inputs : List.Forall₂ Alike below below') :
    List.Forall₂ Alike (o.output below) (o'.output below') := by
  cases similar with
  | project columns => exact slots_alike (alike_list_iff.1 columns)
  | aggregate keys outputs => exact slots_alike (alike_list_iff.1 outputs)
  | filter | having | qualify | limit => exact inputs

theorem expressions_alike (similar : Similar o o') :
    List.Forall₂ Alike o.expressions o'.expressions := by
  have computed {cs ds : List NamedExpr} (equal : Alike cs ds) :
      List.Forall₂ Alike (cs.filterMap fun c => c.alias?.map Alias.expr)
        (ds.filterMap fun d => d.alias?.map Alias.expr) :=
    List.rel_filterMap
      (fun _ _ same => map_of_rel (NamedExpr.alias?_alike same) fun _ _ => Alias.expr_alike)
      (alike_list_iff.1 equal)
  cases similar with
  | project columns => exact computed columns
  | aggregate keys outputs => exact List.rel_append (alike_list_iff.1 keys) (computed outputs)
  | filter predicates | having predicates | qualify predicates =>
    exact SortedSet.alike_iff.1 predicates
  | limit => exact .nil

end Operator

namespace Plan

inductive Similar : Plan → Plan → Prop
  | get {r r'} (relation : Alike r r') : Similar (.get r) (.get r')
  | unary {o o' p p'} (operator : Operator.Similar o o') (input : Similar p p') :
      Similar (.unary o p) (.unary o' p')
  | join {j j' l l' r r'} (how : Alike j j') (left : Similar l l') (right : Similar r r') :
      Similar (.join j l r) (.join j' l' r')

theorem similar_of_alike {p q : Plan} (equal : Alike p q) : Similar p q := by
  induction p generalizing q with
  | get r =>
    cases q with
    | get => exact .get equal
    | _ => cases equal
  | unary o p ih =>
    cases q with
    | unary o' p' =>
      obtain ⟨operator, input⟩ := Bool.and_eq_true_iff.1 equal
      exact .unary (Operator.alike_iff.1 operator) (ih input)
    | _ => cases equal
  | join j l r ihl ihr =>
    cases q with
    | join =>
      obtain ⟨both, right⟩ := Bool.and_eq_true_iff.1 equal
      obtain ⟨how, left⟩ := Bool.and_eq_true_iff.1 both
      exact .join how (ihl left) (ihr right)
    | _ => cases equal

theorem Similar.alike {p q : Plan} (similar : Similar p q) : Alike p q := by
  induction similar with
  | get relation => exact relation
  | unary operator _ input =>
    rw [Alike, beq_unary, Operator.alike_iff.2 operator, input, Bool.and_self]
  | join how _ _ left right => rw [Alike, beq_join, how, left, right, Bool.and_self, Bool.and_self]

theorem alike_iff {p q : Plan} : Alike p q ↔ Similar p q := ⟨similar_of_alike, Similar.alike⟩

end Plan

instance : EquivBEq Relation where
  symm equal := by
    obtain ⟨name, output⟩ := Bool.and_eq_true_iff.1 equal
    exact Bool.and_eq_true_iff.2 ⟨BEq.symm name, BEq.symm output⟩
  trans first second := by
    obtain ⟨name, output⟩ := Bool.and_eq_true_iff.1 first
    obtain ⟨name', output'⟩ := Bool.and_eq_true_iff.1 second
    exact Bool.and_eq_true_iff.2 ⟨BEq.trans name name', BEq.trans output output'⟩

instance : EquivBEq Join where
  symm equal := by
    obtain ⟨kind, condition⟩ := Bool.and_eq_true_iff.1 equal
    exact Bool.and_eq_true_iff.2 ⟨BEq.symm kind, BEq.symm condition⟩
  trans first second := by
    obtain ⟨kind, condition⟩ := Bool.and_eq_true_iff.1 first
    obtain ⟨kind', condition'⟩ := Bool.and_eq_true_iff.1 second
    exact Bool.and_eq_true_iff.2 ⟨BEq.trans kind kind', BEq.trans condition condition'⟩

namespace Plan
variable {p q r : Plan}

theorem Similar.symm (similar : Similar p q) : Similar q p := by
  induction similar with
  | get relation => exact .get (BEq.symm relation)
  | unary operator _ input =>
    exact .unary (Operator.alike_iff.1 (BEq.symm (Operator.alike_iff.2 operator))) input
  | join how _ _ left right => exact .join (BEq.symm how) left right

theorem Similar.trans (first : Similar p q) (second : Similar q r) : Similar p r := by
  induction first generalizing r with
  | get relation =>
    cases second with
    | get relation' => exact .get (BEq.trans relation relation')
  | unary operator _ input =>
    cases second with
    | unary operator' below =>
      have both := BEq.trans (Operator.alike_iff.2 operator) (Operator.alike_iff.2 operator')
      exact .unary (Operator.alike_iff.1 both) (input below)
  | join how _ _ left right =>
    cases second with
    | join how' left' right' => exact .join (BEq.trans how how') (left left') (right right')

instance : EquivBEq Plan where
  symm equal := (similar_of_alike equal).symm.alike
  trans first second := ((similar_of_alike first).trans (similar_of_alike second)).alike

theorem output_alike (similar : Similar p q) : List.Forall₂ Alike p.output q.output := by
  induction similar with
  | get relation => exact alike_list_iff.1 (Bool.and_eq_true_iff.1 relation).2
  | unary operator _ input => exact Operator.output_alike operator input
  | @join j j' _ _ _ _ how _ _ left right =>
    cases j
    cases j'
    cases eq_of_beq (Bool.and_eq_true_iff.1 how).1
    refine List.rel_append ?_ ?_
    · split
      · exact left
      · exact .nil
    · split
      · exact right
      · exact .nil

theorem expressions_alike (similar : Similar p q) :
    List.Forall₂ Alike p.expressions q.expressions := by
  cases similar with
  | get => exact .nil
  | unary operator => exact Operator.expressions_alike operator
  | join how => exact toList_of_rel (alike_option_iff.1 (Bool.and_eq_true_iff.1 how).2)

theorem ownSlots_alike (similar : Similar p q) : List.Forall₂ Alike p.ownSlots q.ownSlots :=
  List.rel_append (output_alike similar)
    (flatMap_of_forall₂ (expressions_alike similar) fun _ _ equal =>
      SortedSet.alike_iff.1 (Expr.inputSlots_alike equal))

theorem postorder_similar (similar : Similar p q) :
    List.Forall₂ Similar p.postorder q.postorder := by
  induction similar with
  | get relation => exact .cons (.get relation) .nil
  | unary operator input below =>
    exact List.rel_append below (.cons (.unary operator input) .nil)
  | join how left right first second =>
    exact List.rel_append (List.rel_append first second) (.cons (.join how left right) .nil)

theorem freshSupply_eq (similar : Similar p q) : p.freshSupply = q.freshSupply := by
  have ids : p.postorder.flatMap (fun node => node.ownSlots.map Slot.id) =
      q.postorder.flatMap (fun node => node.ownSlots.map Slot.id) := by
    rw [← List.forall₂_eq_eq_eq]
    refine flatMap_of_forall₂ (postorder_similar similar) fun a b nodes => ?_
    rw [List.forall₂_eq_eq_eq]
    exact map_eq_of_forall₂ (ownSlots_alike nodes) fun _ _ => Slot.beq_iff.1
  rw [freshSupply, freshSupply, maxSlotId?, maxSlotId?, ids]

theorem unary_alike {o o' : Operator} (operator : Operator.Similar o o') (input : Alike p q) :
    Alike (unary o p) (unary o' q) :=
  (Similar.unary operator (similar_of_alike input)).alike

theorem projectSlots_alike {slots slots' : List Slot} (distinct : Bool) (input : Alike p q)
    (columns : List.Forall₂ Alike slots slots') :
    Alike (p.projectSlots slots distinct) (q.projectSlots slots' distinct) := by
  refine unary_alike (.project (alike_list_iff.2 ?_)) input
  exact map_of_forall₂ columns fun _ _ slot => NamedExpr.alike_iff.2 (.column slot)

theorem outputSet_alike (similar : Similar p q) : Alike p.outputSet q.outputSet :=
  SortedSet.ofList_alike (output_alike similar)

end Plan
end QueryPlan

import QueryPlan.Proofs.Expr.Reading
import QueryPlan.Proofs.Json.Forms
import QueryPlan.Proofs.Plan.Parts

/-!
Decoding undoes encoding. Main statement: of every form of a plan, an expression, an output column
or a configuration, decoding gives that very value, names of slots included, if the form is kept;
a form in which a node with named fields is written as an array is refused by its type.
-/
namespace QueryPlan

abbrev SlotId.Fits (id : SlotId) : Prop := id < UInt64.size

abbrev Expr.IdsFit (e : Expr) : Prop := e.ReadsOnly SlotId.Fits

def NamedExpr.IdsFit (n : NamedExpr) : Prop := SlotId.Fits n.slot.id ∧ n.expr.IdsFit

/-- Every identifier of a column that some node produces or reads fits. -/
def Plan.IdsFit (p : Plan) : Prop :=
  ∀ node ∈ p.postorder, ∀ s ∈ node.ownSlots, SlotId.Fits s.id

open Decoder Fields

theorem Slot.ofJson_takes {s : Slot} {j : Json} {kept : Bool} (form : s.JsonForm j kept)
    (fits : SlotId.Fits s.id) : Slot.ofJson.Takes s j kept := by
  cases form with
  | mk written =>
    have id := one_takes (natural_takes fits) "id" none
    have name := one_takes (text_takes s.name) "name" none
    exact ((id.and name).map _).record (by simp) written

theorem UnaryFunc.ofJson_takes (f : UnaryFunc) : UnaryFunc.ofJson.Takes f (.text f.tag) true :=
  enumeration_takes (by decide) (by cases f <;> decide)

theorem BinaryFunc.ofJson_takes (f : BinaryFunc) : BinaryFunc.ofJson.Takes f (.text f.tag) true :=
  enumeration_takes (by decide) (by cases f <;> decide)

theorem VariadicFunc.ofJson_takes (f : VariadicFunc) :
    VariadicFunc.ofJson.Takes f (.text f.tag) true :=
  enumeration_takes (by decide) (by cases f <;> decide)

theorem AggregateFunc.ofJson_takes (f : AggregateFunc) :
    AggregateFunc.ofJson.Takes f (.text f.tag) true :=
  enumeration_takes (by decide) (by cases f <;> decide)

theorem SubqueryKind.ofJson_takes (k : SubqueryKind) :
    SubqueryKind.ofJson.Takes k (.text k.tag) true :=
  enumeration_takes (by decide) (by cases k <;> decide)

theorem JoinKind.ofJson_takes (k : JoinKind) : JoinKind.ofJson.Takes k (.text k.tag) true :=
  enumeration_takes (by decide) (by cases k <;> decide)

theorem WindowFunc.ofJson_takes (f : WindowFunc) : WindowFunc.ofJson.Takes f f.toJson true := by
  cases f with
  | aggregate f => exact (AggregateFunc.ofJson_takes f).map WindowFunc.aggregate
  | _ => rfl

theorem Datum.ofJson_takes (d : Datum) : Datum.ofJson.Takes d d.toJson true := by
  cases d with
  | null => rfl
  | boolean b => cases b <;> rfl
  | integer i => exact (int64_takes i).map Datum.integer
  | text s => rfl

namespace Expr

theorem decodeNode_takes {self : Decoder Expr} {e : Expr} {j : Json} {kept : Bool}
    (taken : self.TakesBelow JsonForm IdsFit j.depth) (form : e.JsonForm j kept) (fits : e.IdsFit) :
    (decodeNode self).Takes e j kept := by
  obtain ⟨own, below⟩ := readsOnly_iff.1 fits
  cases form with
  | slot form => exact (Slot.ofJson_takes form (readsOnly_slot.1 fits)).map slot
  | @literal d => exact (Datum.ofJson_takes d).map literal
  | @unary f a _ _ _ _ arg written =>
    have deeper := written.depth_lt_tagged "CallUnary"
    simp only [children, List.forall_mem_cons] at below deeper
    have func := one_takes (UnaryFunc.ofJson_takes f) "func" none
    have expr := one_takes (taken arg below.1 deeper.2.1) "expr" none
    exact ((func.and expr).map _).members (by simp) written
  | @binary f a b _ _ _ _ _ _ left right written =>
    have deeper := written.depth_lt_tagged "CallBinary"
    simp only [children, List.forall_mem_cons] at below deeper
    have func := one_takes (BinaryFunc.ofJson_takes f) "func" none
    have expr1 := one_takes (taken left below.1 deeper.2.1) "expr1" none
    have expr2 := one_takes (taken right below.2.1 deeper.2.2.1) "expr2" none
    exact ((func.and (expr1.and expr2)).map _).members (by simp) written
  | @variadic f as _ _ _ _ args written =>
    have deeper := written.depth_lt_tagged "CallVariadic"
    simp only [List.forall_mem_cons] at deeper
    have func := one_takes (VariadicFunc.ofJson_takes f) "func" none
    have exprs := one_takes (taken.list args below deeper.2.1) "exprs" none
    exact ((func.and exprs).map _).members (by simp) written
  | @aggregate f a d _ _ kept _ arg written =>
    have deeper := written.depth_lt_tagged "Aggregate"
    simp only [children, List.forall_mem_cons] at below deeper
    have func := one_takes (AggregateFunc.ofJson_takes f) "func" none
    have expr := one_takes (taken arg below.1 deeper.2.1) "expr" none
    have distinct := one_takes (boolean_takes d) "distinct" none
    have fields := func.and (expr.and distinct)
    rw [Bool.true_and, Bool.and_true] at fields
    exact (fields.map _).record (by simp) written
  | @window f as ps os _ _ _ _ _ _ _ _ args parts orders written =>
    have deeper := written.depth_lt_tagged "Window"
    simp only [children, List.forall_mem_cons, List.forall_mem_append] at below deeper
    have func := one_takes (WindowFunc.ofJson_takes f) "func" none
    have args := one_takes (taken.list args below.1.1 deeper.2.1) "args" none
    have parts := one_takes (taken.list parts below.1.2 deeper.2.2.1) "partition_by" none
    have orders := one_takes (taken.list orders below.2 deeper.2.2.2.1) "order_by" none
    exact ((func.and (args.and (parts.and orders))).map _).record (by simp) written
  | @subquery k h as ss _ _ _ _ _ _ args slots written =>
    have deeper := written.depth_lt_tagged "Subquery"
    simp only [List.forall_mem_cons] at deeper
    have slots := list_takes slots fun s mem _ _ _ form => Slot.ofJson_takes form (own s mem)
    have kind := one_takes (SubqueryKind.ofJson_takes k) "kind" none
    have handle := one_takes (uint64_takes h) "handle" none
    have args := one_takes (taken.list args below deeper.2.2.1) "args" none
    have correlated := one_takes slots "correlated" none
    exact ((kind.and (handle.and (args.and correlated))).map _).record (by simp) written

theorem ofJson_takes {e : Expr} {j : Json} {kept : Bool} (form : e.JsonForm j kept)
    (fits : e.IdsFit) : ofJson.Takes e j kept :=
  recursive_takes decodeNode_takes form fits

end Expr

theorem Alias.ofJson_takes {a : Alias} {j : Json} {kept : Bool} (form : a.JsonForm j kept)
    (slotFits : SlotId.Fits a.slot.id) (exprFits : a.expr.IdsFit) :
    Alias.ofJson.Takes a j kept := by
  cases form with
  | mk slot expr written =>
    have slot := one_takes (Slot.ofJson_takes slot slotFits) "slot" none
    have expr := one_takes (Expr.ofJson_takes expr exprFits) "expr" none
    exact ((slot.and expr).map _).record (by simp) written

theorem NamedExpr.ofJson_takes {n : NamedExpr} {j : Json} {kept : Bool}
    (form : n.JsonForm j kept) (fits : n.IdsFit) : NamedExpr.ofJson.Takes n j kept := by
  cases form with
  | column form => exact (Slot.ofJson_takes form fits.1).map column
  | aliased form => exact (Alias.ofJson_takes form fits.1 fits.2).map aliased

theorem NamedExpr.idsFit_of_outputs {ns : List NamedExpr}
    (slots : ∀ s ∈ ns.map slot, SlotId.Fits s.id)
    (exprs : ∀ e ∈ ns.filterMap fun n => n.alias?.map Alias.expr, e.IdsFit) :
    ∀ n ∈ ns, n.IdsFit := by
  intro n mem
  have slotFits := slots n.slot (List.mem_map_of_mem mem)
  refine ⟨slotFits, ?_⟩
  cases n with
  | column s => exact Expr.readsOnly_slot.2 slotFits
  | aliased a => exact exprs a.expr (List.mem_filterMap.2 ⟨.aliased a, mem, rfl⟩)

theorem Conjuncts.ofJson_takes {predicates : Conjuncts} {j : Json} {kept : Bool}
    (form : predicates.JsonForm j kept) (fits : ∀ e ∈ predicates.toList, e.IdsFit) :
    Conjuncts.ofJson.Takes predicates j kept := by
  cases form with
  | mk listed =>
    have items := list_takes listed fun e mem _ _ _ form => Expr.ofJson_takes form (fits e mem)
    have set := items.map (SortedSet.extend .empty)
    rwa [SortedSet.extend_toList] at set

theorem Join.condition_takes {condition : Option Expr} {j : Json} {kept : Bool}
    (form : ConditionForm condition j kept) (fits : ∀ e ∈ condition.toList, e.IdsFit) :
    (optional Expr.ofJson).Takes condition j kept := by
  cases form with
  | none => rfl
  | @some e _ _ form =>
    have takes := (Expr.ofJson_takes form (fits e (List.mem_singleton_self e))).map some
    -- A form of an expression has a tag, so it is not taken for nothing.
    cases form <;> exact takes

namespace Plan

theorem IdsFit.parts {p : Plan} (fits : p.IdsFit) :
    (∀ s ∈ p.output, SlotId.Fits s.id) ∧ (∀ e ∈ p.expressions, e.IdsFit) ∧
      ∀ q ∈ p.children, q.IdsFit := by
  have own := fits p p.mem_postorder_self
  refine ⟨fun s mem => own s (List.mem_append_left _ mem), fun e mem s reads => ?_,
    fun q child node sub => fits node (mem_postorder_of_child child sub)⟩
  exact own s (List.mem_append_right _ (List.mem_flatMap.2 ⟨e, mem, reads⟩))

theorem decodeNode_takes {self : Decoder Plan} {p : Plan} {j : Json} {kept : Bool}
    (taken : self.TakesBelow JsonForm IdsFit j.depth) (form : p.JsonForm j kept)
    (fits : p.IdsFit) : (decodeNode self).Takes p j kept := by
  obtain ⟨slots, exprs, below⟩ := fits.parts
  cases form with
  | @get r _ _ _ _ output written =>
    have slots := list_takes output fun s mem _ _ _ form => Slot.ofJson_takes form (slots s mem)
    have name := one_takes (text_takes r.name) "name" none
    have output := one_takes slots "output" none
    exact ((name.and output).map _).members (by simp) written
  | @project p ns d _ _ _ kept also whole input projections written =>
    have deeper := written.depth_lt_tagged "project"
    simp only [children, List.forall_mem_cons] at below deeper
    have columns := list_takes projections fun n mem _ _ _ form =>
      NamedExpr.ofJson_takes form (NamedExpr.idsFit_of_outputs slots exprs n mem)
    have input := one_takes (taken input below.1 deeper.1) "input" none
    have projections := one_takes columns "projections" none
    have distinct := one_takes (boolean_takes d) "distinct" none
    have fields := input.and (projections.and distinct)
    rw [Bool.and_true] at fields
    exact (fields.map _).members (by simp) written
  | aggregate input keys outputs written =>
    have deeper := written.depth_lt_tagged "aggregate"
    simp only [children, List.forall_mem_cons] at below deeper
    obtain ⟨keysFit, exprs⟩ := List.forall_mem_append.1 exprs
    have groupKey := list_takes keys fun e mem _ _ _ form =>
      Expr.ofJson_takes form (keysFit e mem)
    have columns := list_takes outputs fun n mem _ _ _ form =>
      NamedExpr.ofJson_takes form (NamedExpr.idsFit_of_outputs slots exprs n mem)
    have input := one_takes (taken input below.1 deeper.1) "input" none
    have keys := one_takes groupKey "group_key" none
    have outputs := one_takes columns "outputs" none
    exact ((input.and (keys.and outputs)).map _).members (by simp) written
  | @selection tag operator p cs _ _ _ _ _ _ kind input predicates written =>
    have deeper := written.depth_lt_tagged tag
    simp only [children, List.forall_mem_cons] at below deeper
    have fit : ∀ e ∈ cs.toList, e.IdsFit := by cases kind <;> exact exprs
    have input := one_takes (taken input below.1 deeper.1) "input" none
    have predicates := one_takes (Conjuncts.ofJson_takes predicates fit) "predicates" none
    cases kind <;> exact ((input.and predicates).map _).members (by simp) written
  | @join how _ _ _ _ _ _ _ _ _ _ left right condition written =>
    have deeper := written.depth_lt_tagged "join"
    simp only [children, List.forall_mem_cons] at below deeper
    have left := one_takes (taken left below.1 deeper.1) "left" none
    have right := one_takes (taken right below.2.1 deeper.2.1) "right" none
    have kind := one_takes (JoinKind.ofJson_takes how.kind) "kind" none
    have on := one_takes (Join.condition_takes condition exprs) "on" (some none)
    exact ((left.and (right.and (kind.and on))).map _).members (by simp) written
  | @limit p count offset _ _ _ _ input written =>
    have deeper := written.depth_lt_tagged "limit"
    simp only [children, List.forall_mem_cons] at below deeper
    have input := one_takes (taken input below.1 deeper.1) "input" none
    have count := one_takes (uint64_takes count) "limit" none
    have offset := one_takes (uint64_takes offset) "offset" none
    have fields := input.and (count.and offset)
    rw [Bool.and_true, Bool.and_true] at fields
    exact (fields.map _).members (by simp) written

theorem ofJson_takes {p : Plan} {j : Json} {kept : Bool} (form : p.JsonForm j kept)
    (fits : p.IdsFit) : ofJson.Takes p j kept :=
  recursive_takes decodeNode_takes form fits

end Plan

theorem Config.ofJson_takes {c : Config} {j : Json} {kept : Bool} (form : c.JsonForm j kept)
    (fits : c.fixpointLimit < UInt64.size) : Config.ofJson.Takes c j kept := by
  cases form with
  | mk written =>
    have limit := one_takes (natural_takes fits) "fixpoint_limit" (some 100)
    have enable := one_takes (boolean_takes c.enableFillUpQualify) "enable_fill_up_qualify"
      (some true)
    exact ((limit.and enable).map _).strict (by simp) written

/-- Decoding what the value is encoded to gives the value. So it does for each of the value's
forms that is kept, and the others are refused by their type. -/
structure RoundTrips (encode : α → Json) (decode : Decoder α) (form : α → Json → Bool → Prop)
    (a : α) : Prop where
  encoded : form a (encode a) true
  decoded : decode (encode a) = .ok a
  forms : ∀ j kept, form a j kept → decode j = if kept then .ok a else .error .invalidType

theorem RoundTrips.of_takes {encode : α → Json} {decode : Decoder α}
    {form : α → Json → Bool → Prop} {a : α} (encoded : form a (encode a) true)
    (takes : ∀ {j kept}, form a j kept → decode.Takes a j kept) :
    RoundTrips encode decode form a :=
  ⟨encoded, takes encoded, fun _ _ => takes⟩

theorem every_form_decodes :
    (∀ p : Plan, p.IdsFit → RoundTrips Plan.toJson Plan.ofJson Plan.JsonForm p) ∧
    (∀ e : Expr, e.IdsFit → RoundTrips Expr.toJson Expr.ofJson Expr.JsonForm e) ∧
    (∀ n : NamedExpr, n.IdsFit →
      RoundTrips NamedExpr.toJson NamedExpr.ofJson NamedExpr.JsonForm n) ∧
    ∀ c : Config, c.fixpointLimit < UInt64.size →
      RoundTrips Config.toJson Config.ofJson Config.JsonForm c := by
  refine ⟨fun p fits => ?_, fun e fits => ?_, fun n fits => ?_, fun c fits => ?_⟩
  · exact .of_takes p.jsonForm_toJson fun form => Plan.ofJson_takes form fits
  · exact .of_takes e.jsonForm_toJson fun form => Expr.ofJson_takes form fits
  · exact .of_takes n.jsonForm_toJson fun form => NamedExpr.ofJson_takes form fits
  · exact .of_takes c.jsonForm_toJson fun form => Config.ofJson_takes form fits

theorem every_form_decodes_extremes :
    (let e : Expr := .binary .gt (.slot ⟨18446744073709551615, "a"⟩) (.literal (.integer (-5)))
     let p : Plan := .filter (.get ⟨"t", [⟨18446744073709551615, "b"⟩]⟩) (.ofList [e])
     p.IdsFit ∧ Plan.ofJson p.toJson = .ok p) ∧
    Expr.ofJson (.tagged "Slot" (.array [.integer 7, .text "a"])) = .ok (.slot ⟨7, "a"⟩) ∧
    NamedExpr.ofJson (.tagged "Slot" (.object [("name", .text "a"), ("id", .integer 7)])) =
      .ok (.column ⟨7, "a"⟩) ∧
    Config.ofJson (.array [.integer 3, .boolean false]) = .ok ⟨3, false⟩ := by
  refine ⟨?_, ?_, ?_, ?_⟩
  · have fits : (Plan.filter (.get ⟨"t", [⟨18446744073709551615, "b"⟩]⟩) (.ofList [.binary .gt
        (.slot ⟨18446744073709551615, "a"⟩) (.literal (.integer (-5)))])).IdsFit := by
      unfold Plan.IdsFit
      decide
    exact ⟨fits, (every_form_decodes.1 _ fits).decoded⟩
  · exact (every_form_decodes.2.1 (.slot ⟨7, "a"⟩) (by decide)).forms _ true (.slot (.mk .array))
  · exact (every_form_decodes.2.2.1 (.column ⟨7, "a"⟩) ⟨by decide, by decide⟩).forms _ true
      (.column (.mk (.object (.swap ..))))
  · exact (every_form_decodes.2.2.2 ⟨3, false⟩ (by decide)).forms _ true (.mk .array)

/-- A relation in which the fields are an array is refused. -/
theorem not_every_form_decodes :
    ¬ ∀ (p : Plan) (j : Json) (kept : Bool), p.IdsFit → p.JsonForm j kept →
      Plan.ofJson j = .ok p := by
  intro decodes
  have form : Plan.JsonForm (.get ⟨"t", [⟨1, "a"⟩]⟩)
      (.tagged "get" (.array [.text "t", .array [Slot.toJson ⟨1, "a"⟩]])) false :=
    .get (.cons (Slot.jsonForm_toJson ⟨1, "a"⟩) .nil) .array
  have fits : Plan.IdsFit (.get ⟨"t", [⟨1, "a"⟩]⟩) := by
    unfold Plan.IdsFit
    decide
  cases decodes _ _ _ fits form

end QueryPlan

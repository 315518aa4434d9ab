import QueryPlan.Json.Config
import QueryPlan.Json.Plan
import QueryPlan.Proofs.Json.Records

namespace QueryPlan

inductive Slot.JsonForm (s : Slot) : Json → Bool → Prop
  | mk {whole : Bool} {j : Json} :
    Written [("id", .integer s.id), ("name", .text s.name)] whole j → JsonForm s j true

/-- The kinds of node from `unary` to `variadic` have named fields; `aggregate`, `window` and
`subquery` hold a record of a type of its own. -/
inductive Expr.JsonForm : Expr → Json → Bool → Prop
  | slot {s : Slot} {j : Json} {kept : Bool} :
    s.JsonForm j kept → JsonForm (.slot s) (.tagged "Slot" j) kept
  | literal {d : Datum} : JsonForm (.literal d) (.tagged "Literal" d.toJson) true
  | unary {f : UnaryFunc} {a : Expr} {arg j : Json} {kept whole : Bool} :
    JsonForm a arg kept → Written [("func", .text f.tag), ("expr", arg)] whole j →
    JsonForm (.unary f a) (.tagged "CallUnary" j) (whole && kept)
  | binary {f : BinaryFunc} {a b : Expr} {left right j : Json} {kept also whole : Bool} :
    JsonForm a left kept → JsonForm b right also →
    Written [("func", .text f.tag), ("expr1", left), ("expr2", right)] whole j →
    JsonForm (.binary f a b) (.tagged "CallBinary" j) (whole && (kept && also))
  | variadic {f : VariadicFunc} {as : List Expr} {args : List Json} {j : Json}
      {kept whole : Bool} :
    Listed JsonForm as args kept →
    Written [("func", .text f.tag), ("exprs", .array args)] whole j →
    JsonForm (.variadic f as) (.tagged "CallVariadic" j) (whole && kept)
  | aggregate {f : AggregateFunc} {a : Expr} {d : Bool} {arg j : Json} {kept whole : Bool} :
    JsonForm a arg kept →
    Written [("func", .text f.tag), ("expr", arg), ("distinct", .boolean d)] whole j →
    JsonForm (.aggregate f a d) (.tagged "Aggregate" j) kept
  | window {f : WindowFunc} {as ps os : List Expr} {args parts orders : List Json} {j : Json}
      {keptArgs keptParts keptOrders whole : Bool} :
    Listed JsonForm as args keptArgs → Listed JsonForm ps parts keptParts →
    Listed JsonForm os orders keptOrders →
    Written [("func", f.toJson), ("args", .array args), ("partition_by", .array parts),
      ("order_by", .array orders)] whole j →
    JsonForm (.window f as ps os) (.tagged "Window" j) (keptArgs && (keptParts && keptOrders))
  | subquery {k : SubqueryKind} {h : UInt64} {as : List Expr} {ss : List Slot}
      {args slots : List Json} {j : Json} {kept keptSlots whole : Bool} :
    Listed JsonForm as args kept → Listed Slot.JsonForm ss slots keptSlots →
    Written [("kind", .text k.tag), ("handle", .integer h.toNat), ("args", .array args),
      ("correlated", .array slots)] whole j →
    JsonForm (.subquery k h as ss) (.tagged "Subquery" j) (kept && keptSlots)

inductive Alias.JsonForm (a : Alias) : Json → Bool → Prop
  | mk {slot expr j : Json} {keptSlot keptExpr whole : Bool} :
    a.slot.JsonForm slot keptSlot → a.expr.JsonForm expr keptExpr →
    Written [("slot", slot), ("expr", expr)] whole j → JsonForm a j (keptSlot && keptExpr)

inductive NamedExpr.JsonForm : NamedExpr → Json → Bool → Prop
  | column {s : Slot} {j : Json} {kept : Bool} :
    s.JsonForm j kept → JsonForm (.column s) (.tagged "Slot" j) kept
  | aliased {a : Alias} {j : Json} {kept : Bool} :
    a.JsonForm j kept → JsonForm (.aliased a) (.tagged "Alias" j) kept

inductive Conjuncts.JsonForm (predicates : Conjuncts) : Json → Bool → Prop
  | mk {js : List Json} {kept : Bool} :
    Listed Expr.JsonForm predicates.toList js kept → JsonForm predicates (.array js) kept

inductive Join.ConditionForm : Option Expr → Json → Bool → Prop
  | none : ConditionForm none .null true
  | some {e : Expr} {j : Json} {kept : Bool} : e.JsonForm j kept → ConditionForm (some e) j kept

inductive Plan.Selection : String → (Conjuncts → Operator) → Prop
  | filter : Selection "filter" .filter
  | having : Selection "having" .having
  | qualify : Selection "qualify" .qualify

inductive Plan.JsonForm : Plan → Json → Bool → Prop
  | get {r : Relation} {output : List Json} {j : Json} {kept whole : Bool} :
    Listed Slot.JsonForm r.output output kept →
    Written [("name", .text r.name), ("output", .array output)] whole j →
    JsonForm (.get r) (.tagged "get" j) (whole && kept)
  | project {p : Plan} {ns : List NamedExpr} {d : Bool} {input : Json} {projections : List Json}
      {j : Json} {kept also whole : Bool} :
    JsonForm p input kept → Listed NamedExpr.JsonForm ns projections also →
    Written [("input", input), ("projections", .array projections), ("distinct", .boolean d)]
      whole j →
    JsonForm (p.project ns d) (.tagged "project" j) (whole && (kept && also))
  | aggregate {p : Plan} {ks : List Expr} {ns : List NamedExpr} {input : Json}
      {keys outputs : List Json} {j : Json} {kept keptKeys also whole : Bool} :
    JsonForm p input kept → Listed Expr.JsonForm ks keys keptKeys →
    Listed NamedExpr.JsonForm ns outputs also →
    Written [("input", input), ("group_key", .array keys), ("outputs", .array outputs)]
      whole j →
    JsonForm (p.aggregate ks ns) (.tagged "aggregate" j) (whole && (kept && (keptKeys && also)))
  | selection {tag : String} {operator : Conjuncts → Operator} {p : Plan} {cs : Conjuncts}
      {input predicates j : Json} {kept also whole : Bool} :
    Selection tag operator → JsonForm p input kept → cs.JsonForm predicates also →
    Written [("input", input), ("predicates", predicates)] whole j →
    JsonForm (.unary (operator cs) p) (.tagged tag j) (whole && (kept && also))
  | join {how : Join} {p q : Plan} {left right condition j : Json}
      {kept keptRight also whole : Bool} :
    JsonForm p left kept → JsonForm q right keptRight →
    Join.ConditionForm how.condition condition also →
    Written [("left", left), ("right", right), ("kind", .text how.kind.tag), ("on", condition)]
      whole j →
    JsonForm (.join how p q) (.tagged "join" j) (whole && (kept && (keptRight && also)))
  | limit {p : Plan} {count offset : UInt64} {input j : Json} {kept whole : Bool} :
    JsonForm p input kept →
    Written [("input", input), ("limit", .integer count.toNat),
      ("offset", .integer offset.toNat)] whole j →
    JsonForm (p.limit count offset) (.tagged "limit" j) (whole && kept)

inductive Config.JsonForm (c : Config) : Json → Bool → Prop
  | mk {whole : Bool} {j : Json} :
    Written [("fixpoint_limit", .integer c.fixpointLimit),
      ("enable_fill_up_qualify", .boolean c.enableFillUpQualify)] whole j → JsonForm c j true

theorem Written.members (fields : List (String × Json)) : Written fields true (.object fields) :=
  .object (.refl fields)

theorem Listed.of_map {form : α → Json → Bool → Prop} {encode : α → Json} {as : List α}
    (each : ∀ a ∈ as, form a (encode a) true) : Listed form as (as.map encode) true := by
  induction as with
  | nil => exact .nil
  | cons a as ih =>
    obtain ⟨head, tail⟩ := List.forall_mem_cons.1 each
    exact .cons head (ih tail)

theorem Slot.jsonForm_toJson (s : Slot) : s.JsonForm s.toJson true := .mk (Written.members _)

theorem Expr.toJsonList_eq_map (es : List Expr) : toJsonList es = es.map toJson := by
  induction es with
  | nil => rfl
  | cons e es ih => rw [toJsonList, ih, List.map_cons]

theorem Expr.jsonForm_toJson (e : Expr) : e.JsonForm e.toJson true := by
  induction e using induct with
  | step e ih =>
    cases e with
    | slot s => exact .slot s.jsonForm_toJson
    | literal d => exact .literal
    | unary f a => exact .unary (ih a (List.mem_singleton_self a)) (Written.members _)
    | binary f a b =>
      simp only [children, List.forall_mem_cons] at ih
      exact .binary ih.1 ih.2.1 (Written.members _)
    | variadic f as =>
      rw [toJson, toJsonList_eq_map]
      exact .variadic (.of_map ih) (Written.members _)
    | aggregate f a d => exact .aggregate (ih a (List.mem_singleton_self a)) (Written.members _)
    | window f as ps os =>
      simp only [children, List.forall_mem_append] at ih
      rw [toJson, toJsonList_eq_map, toJsonList_eq_map, toJsonList_eq_map]
      exact .window (.of_map ih.1.1) (.of_map ih.1.2) (.of_map ih.2) (Written.members _)
    | subquery k h as ss =>
      rw [toJson, toJsonList_eq_map]
      exact .subquery (.of_map ih) (.of_map fun s _ => s.jsonForm_toJson) (Written.members _)

theorem Alias.jsonForm_toJson (a : Alias) : a.JsonForm a.toJson true :=
  .mk a.slot.jsonForm_toJson a.expr.jsonForm_toJson (Written.members _)

theorem NamedExpr.jsonForm_toJson : ∀ n : NamedExpr, n.JsonForm n.toJson true
  | column s => .column s.jsonForm_toJson
  | aliased a => .aliased a.jsonForm_toJson

theorem Conjuncts.jsonForm_toJson (predicates : Conjuncts) :
    predicates.JsonForm predicates.toJson true :=
  .mk (.of_map fun e _ => e.jsonForm_toJson)

theorem Join.conditionForm_toJson :
    ∀ condition : Option Expr,
      ConditionForm condition ((condition.map Expr.toJson).getD .null) true
  | none => .none
  | some e => .some e.jsonForm_toJson

theorem Plan.jsonForm_toJson (p : Plan) : p.JsonForm p.toJson true := by
  induction p with
  | get r => exact .get (.of_map fun s _ => s.jsonForm_toJson) (Written.members _)
  | join how p q left right =>
    exact .join left right (Join.conditionForm_toJson how.condition) (Written.members _)
  | unary o p input =>
    cases o with
    | project ns d =>
      exact .project input (.of_map fun n _ => n.jsonForm_toJson) (Written.members _)
    | aggregate ks ns =>
      exact .aggregate input (.of_map fun k _ => k.jsonForm_toJson)
        (.of_map fun n _ => n.jsonForm_toJson) (Written.members _)
    | filter cs => exact .selection .filter input cs.jsonForm_toJson (Written.members _)
    | having cs => exact .selection .having input cs.jsonForm_toJson (Written.members _)
    | qualify cs => exact .selection .qualify input cs.jsonForm_toJson (Written.members _)
    | limit count offset => exact .limit input (Written.members _)

theorem Config.jsonForm_toJson (c : Config) : c.JsonForm c.toJson true := .mk (Written.members _)

end QueryPlan

import QueryPlan.Json.Expr
import QueryPlan.Plan.Basic

namespace QueryPlan

def JoinKind.ofJson : Decoder JoinKind := .enumeration all tag

namespace Plan

def toJson : Plan → Json
  | get r =>
    .tagged "get" (.object [("name", .text r.name), ("output", .array (r.output.map Slot.toJson))])
  | project input projections distinct =>
    .tagged "project"
      (.object [("input", input.toJson),
        ("projections", .array (projections.map NamedExpr.toJson)),
        ("distinct", .boolean distinct)])
  | aggregate input groupKey outputs =>
    .tagged "aggregate"
      (.object [("input", input.toJson), ("group_key", .array (groupKey.map Expr.toJson)),
        ("outputs", .array (outputs.map NamedExpr.toJson))])
  | filter input predicates =>
    .tagged "filter" (.object [("input", input.toJson), ("predicates", predicates.toJson)])
  | having input predicates =>
    .tagged "having" (.object [("input", input.toJson), ("predicates", predicates.toJson)])
  | qualify input predicates =>
    .tagged "qualify" (.object [("input", input.toJson), ("predicates", predicates.toJson)])
  | join how left right =>
    .tagged "join"
      (.object [("left", left.toJson), ("right", right.toJson), ("kind", .text how.kind.tag),
        ("on", (how.condition.map Expr.toJson).getD .null)])
  | limit input count offset =>
    .tagged "limit"
      (.object [("input", input.toJson), ("limit", .integer count.toNat),
        ("offset", .integer offset.toNat)])

def getFields : Fields Plan :=
  ((Fields.required "name" Decoder.text).and (.required "output" (.list Slot.ofJson))).map
    fun (name, output) => get ⟨name, output⟩

def projectFields (self : Decoder Plan) : Fields Plan :=
  ((Fields.required "input" self).and
    ((Fields.required "projections" (.list NamedExpr.ofJson)).and
      (.required "distinct" Decoder.boolean))).map
    fun (input, projections, distinct) => input.project projections distinct

def aggregateFields (self : Decoder Plan) : Fields Plan :=
  ((Fields.required "input" self).and
    ((Fields.required "group_key" (.list Expr.ofJson)).and
      (.required "outputs" (.list NamedExpr.ofJson)))).map
    fun (input, groupKey, outputs) => input.aggregate groupKey outputs

def selectionFields (self : Decoder Plan) (operator : Conjuncts → Operator) : Fields Plan :=
  ((Fields.required "input" self).and (.required "predicates" Conjuncts.ofJson)).map
    fun (input, predicates) => unary (operator predicates) input

def joinFields (self : Decoder Plan) : Fields Plan :=
  ((Fields.required "left" self).and
    ((Fields.required "right" self).and
      ((Fields.required "kind" JoinKind.ofJson).and
        (.withDefault "on" (.optional Expr.ofJson) none)))).map
    fun (left, right, kind, condition) => join ⟨kind, condition⟩ left right

def limitFields (self : Decoder Plan) : Fields Plan :=
  ((Fields.required "input" self).and
    ((Fields.required "limit" Decoder.uint64).and (.required "offset" Decoder.uint64))).map
    fun (input, count, offset) => input.limit count offset

def decodeNode (self : Decoder Plan) : Decoder Plan := fun j => do
  match ← Decoder.variant j with
  | ("get", contents) => Decoder.payload getFields.members contents
  | ("project", contents) => Decoder.payload (projectFields self).members contents
  | ("aggregate", contents) => Decoder.payload (aggregateFields self).members contents
  | ("filter", contents) => Decoder.payload (selectionFields self .filter).members contents
  | ("having", contents) => Decoder.payload (selectionFields self .having).members contents
  | ("qualify", contents) => Decoder.payload (selectionFields self .qualify).members contents
  | ("join", contents) => Decoder.payload (joinFields self).members contents
  | ("limit", contents) => Decoder.payload (limitFields self).members contents
  | (tag, _) => .error (.unknownVariant tag)

def ofJson : Decoder Plan := .recursive decodeNode

end Plan
end QueryPlan

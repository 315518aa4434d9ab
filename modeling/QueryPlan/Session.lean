import QueryPlan.Analysis.EffectivePredicates
import QueryPlan.Catalog
import QueryPlan.Json.Config
import QueryPlan.Json.Plan
import QueryPlan.Optimizer.Optimizer
import QueryPlan.Plan.Printer

/-!
Trying out the library step by step. A session holds a catalog and a stack of plans; each step is a
JSON object that says what to `do` and with what. Expressions may be written in shorthand: an object
whose one member has a name such as `$col` stands for the JSON form of what is built from its
contents. A step that fails leaves the stack as it was, but the catalog keeps what was registered.
Steps and shorthand are conventions of this module alone: no other module uses them, and no result
is about them.
-/
namespace QueryPlan

structure Session where
  catalog : Catalog := {}
  /-- The plans, the top first. -/
  stack : List Plan := []

inductive SessionError
  | decode (error : DecodeError)
  | catalog (error : CatalogError)
  | emptyStack
  | pass (error : PassError)
  | unknownInference (name : String)
  | unknownRule (name : String)
  | unknownStep (name : String)

namespace SessionError

def message : SessionError → String
  | decode e => e.message
  | catalog e => e.message
  | emptyStack => "empty"
  | pass e => e.message
  | unknownInference name => "unknown inference " ++ name
  | unknownRule name => "unknown rule " ++ name
  | unknownStep name => "unknown step " ++ name

end SessionError

/-- A computation in a session; its effects stay when it fails. -/
abbrev SessionM := ExceptT SessionError (StateM Session)

namespace Session

def decoded (value : Decoder α) (j : Json) : SessionM α :=
  match value j with
  | .ok a => pure a
  | .error e => throw (.decode e)

def asked (find : Catalog → Except CatalogError α) : SessionM α := do
  match find (← get).catalog with
  | .ok a => pure a
  | .error e => throw (.catalog e)

def made (make : Catalog → Except CatalogError α × Catalog) : SessionM α := do
  let (result, catalog) := make (← get).catalog
  modify fun s => { s with catalog }
  match result with
  | .ok a => pure a
  | .error e => throw (.catalog e)

def binaryShorthand (func : BinaryFunc) (arg : Json) : SessionM Json := do
  let (a, b) ← decoded (.pair Expr.ofJson Expr.ofJson) arg
  return (Expr.binary func a b).toJson

def aggregateShorthand (func : AggregateFunc) (arg : Json) : SessionM Json := do
  return (Expr.aggregate func (← decoded Expr.ofJson arg) false).toJson

def windowShorthand (func : WindowFunc) (arg : Json) : SessionM Json := do
  let (ps, os) ← decoded (.pair (.list Expr.ofJson) (.list Expr.ofJson)) arg
  return (Expr.window func [] ps os).toJson

def shorthand (name : String) (arg : Json) : SessionM Json := do
  match name with
  | "$col" => do
    let column ← decoded Decoder.text arg
    return (Expr.slot (← asked (·.slot column))).toJson
  | "$slot" => do
    let column ← decoded Decoder.text arg
    return (← asked (·.slot column)).toJson
  | "$cols" => do
    let columns ← decoded (.list Decoder.text) arg
    return .array ((← asked (·.passed columns)).map NamedExpr.toJson)
  | "$alias" => do
    let (column, e) ← decoded (.pair Decoder.text Expr.ofJson) arg
    return (← made (·.computed column e)).toJson
  | "$lit" => do return (Expr.literal (.integer (← decoded Decoder.int64 arg))).toJson
  | "$eq" => binaryShorthand .eq arg
  | "$gt" => binaryShorthand .gt arg
  | "$lt" => binaryShorthand .lt arg
  | "$add" => binaryShorthand .add arg
  | "$sum" => aggregateShorthand .sum arg
  | "$count" => aggregateShorthand .count arg
  | "$rank" => windowShorthand .rank arg
  | "$row_number" => windowShorthand .rowNumber arg
  | _ => return .object [(name, arg)]

mutual

def expand : Json → SessionM Json
  | .array items => do return .array (← expandItems items)
  | .object members => do
    match ← expandMembers members with
    | [(name, arg)] => shorthand name arg
    | members => return .object members
  | j => return j

def expandItems : List Json → SessionM (List Json)
  | [] => return []
  | j :: items => do
    let j ← expand j
    return j :: (← expandItems items)

def expandMembers : List (String × Json) → SessionM (List (String × Json))
  | [] => return []
  | (name, j) :: members => do
    let j ← expand j
    return (name, j) :: (← expandMembers members)

end

def push (plan : Plan) : SessionM Unit := modify fun s => { s with stack := plan :: s.stack }

def top : SessionM Plan := do
  match (← get).stack with
  | plan :: _ => pure plan
  | [] => throw .emptyStack

def replaceTop (plan : Plan) : SessionM Unit :=
  modify fun s => { s with stack := plan :: s.stack.tail }

def ok : Json := .text "ok"

def build (make : Plan → SessionM Plan) : SessionM Json := do
  replaceTop (← make (← top))
  return ok

def collected (fields : Json) : SessionM Conjuncts := do
  return .ofList (← decoded (.list Expr.ofJson) (fields.member "predicates"))

def textList (texts : List String) : Json := .array (texts.map .text)

def configOf (fields : Json) : SessionM Config :=
  match fields.member "config" with
  | .null => pure {}
  | j => decoded Config.ofJson j

def inferenceNamed (name : String) : SessionM Inference :=
  match name with
  | "none" => pure Inference.nothing
  | "equality" => pure Inference.equality
  | _ => throw (.unknownInference name)

def ruleNamed? (name : String) : Option (Conjuncts → Supply → Plan → Option (Plan × Supply)) :=
  match name with
  | "project" => some Plan.completeProject?
  | "aggregate" => some Plan.completeAggregate?
  | "having_aggregate" => some Plan.completeHavingAggregate?
  | "having_project" => some Plan.completeHavingProject?
  | _ => none

def draw (supply : Supply) : SessionM Unit := do
  unless supply.InRange do throw (.catalog .overflow)
  modify fun s => { s with catalog := { s.catalog with supply } }

/-- Applies a completion to the top plan with the catalog's supply; says whether it changed. -/
def complete (rule : Supply → Plan → Option (Plan × Supply)) : SessionM Json := do
  let plan ← top
  let completed := rule (← get).catalog.supply plan
  if let some (plan, supply) := completed then
    draw supply
    replaceTop plan
  return .object [("changed", .boolean completed.isSome),
    ("next_id", .integer (← get).catalog.supply.next)]

def runPass (pass : Pass) (config : Config) : SessionM Json := do
  let outcome := pass.run config (← top) (← get).catalog.supply
  draw outcome.supply
  match outcome.failure with
  | some e => throw (.pass e)
  | none =>
    replaceTop outcome.plan
    return ok

def perform (name : String) (fields : Json) : SessionM Json := do
  match name with
  | "table" => do
    let relation ← decoded Decoder.text (fields.member "name")
    let columns ← decoded (.list Decoder.text) (fields.member "columns")
    push (← made (·.table relation columns))
    return ok
  | "get" => do
    let relation ← decoded Decoder.text (fields.member "name")
    let output ← decoded (.list Slot.ofJson) (fields.member "output")
    push (.get ⟨relation, output⟩)
    return ok
  | "dup" => do
    push (← top)
    return ok
  | "drop" => do
    modify fun s => { s with stack := s.stack.tail }
    return ok
  | "value" => return fields.member "value"
  | "allocate" => do
    let (id, supply) := (← get).catalog.supply.allocate
    draw supply
    return .integer id
  | "join" => do
    match (← get).stack with
    | right :: left :: rest =>
      let kind ← decoded JoinKind.ofJson (fields.member "kind")
      let condition ← decoded (.optional Expr.ofJson) (fields.member "on")
      modify fun s => { s with stack := .join ⟨kind, condition⟩ left right :: rest }
      return ok
    | _ => throw .emptyStack
  | "project" => build fun plan => do
    return plan.project (← decoded (.list NamedExpr.ofJson) (fields.member "columns")) false
  | "project_distinct" => build fun plan => do
    return plan.project (← decoded (.list NamedExpr.ofJson) (fields.member "columns")) true
  | "project_slots" => build fun plan => do
    let slots ← decoded (.list Slot.ofJson) (fields.member "slots")
    return plan.projectSlots slots (← decoded Decoder.boolean (fields.member "distinct"))
  | "aggregate" => build fun plan => do
    let groupKey ← decoded (.list Expr.ofJson) (fields.member "group_key")
    return plan.aggregate groupKey
      (← decoded (.list NamedExpr.ofJson) (fields.member "outputs"))
  | "filter" => build fun plan => do return plan.filter (← collected fields)
  | "having" => build fun plan => do return plan.having (← collected fields)
  | "qualify" => build fun plan => do return plan.qualify (← collected fields)
  | "limit" => build fun plan => do
    return plan.limit (← decoded Decoder.uint64 (fields.member "limit")) 0
  | "output" => do return textList ((← top).output.map Slot.render)
  | "predicates" => do
    let plan ← top
    let infer ← inferenceNamed (← decoded Decoder.text (fields.member "infer"))
    return textList ((plan.effectivePredicates infer).toList.map Expr.render)
  | "action" => complete Plan.completeQualify?
  | "rule" => do
    let _ ← top
    let rule ← decoded Decoder.text (fields.member "rule")
    let predicates ← decoded Conjuncts.ofJson (fields.member "predicates")
    match ruleNamed? rule with
    | some rule => complete (rule predicates)
    | none => throw (.unknownRule rule)
  | "fill_up" => do
    let _ ← top
    runPass (.rule .fillUpQualify) (← configOf fields)
  | "optimize" => do
    let plan ← top
    let config ← configOf fields
    match Optimizer.qualifyCompletion.optimizeChecked config plan with
    | .ok plan =>
      replaceTop plan
      return ok
    | .error .overflow => throw (.catalog .overflow)
    | .error (.pass e) => throw (.pass e)
  | _ => throw (.unknownStep name)

def step (j : Json) : SessionM Json := do
  let fields ← expand j
  perform (← decoded Decoder.text (fields.member "do")) fields

end Session
end QueryPlan

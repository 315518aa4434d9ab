import QueryPlan.Expr.Basic

namespace QueryPlan

def commaList (parts : List String) : String := ", ".intercalate parts

namespace Expr

/-- One clause of a window: nothing at all without expressions. -/
def clause (heading : String) (parts : List String) : List String :=
  if parts.isEmpty then [] else [heading ++ commaList parts]

def renderUnary (func : UnaryFunc) (arg : String) : String :=
  match func with
  | .neg => "-" ++ arg
  | f => f.symbol ++ "(" ++ arg ++ ")"

def renderBinary (func : BinaryFunc) (left right : String) : String :=
  "(" ++ left ++ " " ++ func.symbol ++ " " ++ right ++ ")"

def renderVariadic (func : VariadicFunc) (args : List String) : String :=
  match func with
  | .coalesce => func.symbol ++ "(" ++ commaList args ++ ")"
  | _ => "(" ++ (" " ++ func.symbol ++ " ").intercalate args ++ ")"

def renderAggregate (func : AggregateFunc) (arg : String) (distinct : Bool) : String :=
  func.symbol ++ "(" ++ (if distinct then "distinct " else "") ++ arg ++ ")"

def renderWindow (func : WindowFunc) (args partitionBy orderBy : List String) : String :=
  func.symbol ++ "(" ++ commaList args ++ ") over (" ++
    " ".intercalate (clause "partition by " partitionBy ++ clause "order by " orderBy) ++ ")"

def renderSubquery (kind : SubqueryKind) (handle : UInt64) (args : List String)
    (correlated : List Slot) : String :=
  kind.symbol ++ "[" ++ commaList args ++ "](subquery#" ++ toString handle.toNat ++ ")" ++
    (if correlated.isEmpty then ""
     else " correlated [" ++ commaList (correlated.map Slot.render) ++ "]")

mutual

def render : Expr → String
  | slot s => s.render
  | literal d => d.render
  | unary f a => renderUnary f a.render
  | binary f a b => renderBinary f a.render b.render
  | variadic f as => renderVariadic f (renderList as)
  | aggregate f a d => renderAggregate f a.render d
  | window f as ps os => renderWindow f (renderList as) (renderList ps) (renderList os)
  | subquery k h as ss => renderSubquery k h (renderList as) ss

def renderList : List Expr → List String
  | [] => []
  | e :: es => e.render :: renderList es

end

theorem renderList_eq_map (es : List Expr) : renderList es = es.map render := by
  induction es with
  | nil => rfl
  | cons e es ih => simp [renderList, ih]

end Expr
end QueryPlan

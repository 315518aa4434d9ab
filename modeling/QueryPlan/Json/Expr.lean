import QueryPlan.Expr.Conjunction
import QueryPlan.Json.Decoder
import QueryPlan.NamedExpr

namespace QueryPlan

def Slot.toJson (s : Slot) : Json := .object [("id", .integer s.id), ("name", .text s.name)]

def Slot.ofJson : Decoder Slot :=
  (((Fields.required "id" Decoder.natural).and (.required "name" Decoder.text)).map
    fun (id, name) => ⟨id, name⟩).record

def UnaryFunc.ofJson : Decoder UnaryFunc := .enumeration all tag

def BinaryFunc.ofJson : Decoder BinaryFunc := .enumeration all tag

def VariadicFunc.ofJson : Decoder VariadicFunc := .enumeration all tag

def AggregateFunc.ofJson : Decoder AggregateFunc := .enumeration all tag

def SubqueryKind.ofJson : Decoder SubqueryKind := .enumeration all tag

namespace WindowFunc

def toJson : WindowFunc → Json
  | aggregate f => .tagged "Aggregate" (.text f.tag)
  | f => .text f.tag

def ofJson : Decoder WindowFunc := fun j => do
  match ← Decoder.variant j with
  | ("Aggregate", contents) => aggregate <$> Decoder.payload AggregateFunc.ofJson contents
  | _ => Decoder.enumeration ranking tag j

end WindowFunc

namespace Datum

def toJson : Datum → Json
  | null => .text "Null"
  | boolean false => .text "False"
  | boolean true => .text "True"
  | integer i => .tagged "Int64" (.integer i.toInt)
  | text s => .tagged "String" (.text s)

def ofJson : Decoder Datum := fun j => do
  match ← Decoder.variant j with
  | ("Null", contents) => Decoder.unit null contents
  | ("False", contents) => Decoder.unit (boolean false) contents
  | ("True", contents) => Decoder.unit (boolean true) contents
  | ("Int64", contents) => integer <$> Decoder.payload Decoder.int64 contents
  | ("String", contents) => text <$> Decoder.payload Decoder.text contents
  | (tag, _) => .error (.unknownVariant tag)

end Datum

namespace Expr

mutual

def toJson : Expr → Json
  | slot s => .tagged "Slot" s.toJson
  | literal d => .tagged "Literal" d.toJson
  | unary f a =>
    .tagged "CallUnary" (.object [("func", .text f.tag), ("expr", a.toJson)])
  | binary f a b =>
    .tagged "CallBinary"
      (.object [("func", .text f.tag), ("expr1", a.toJson), ("expr2", b.toJson)])
  | variadic f as =>
    .tagged "CallVariadic" (.object [("func", .text f.tag), ("exprs", .array (toJsonList as))])
  | aggregate f a d =>
    .tagged "Aggregate"
      (.object [("func", .text f.tag), ("expr", a.toJson), ("distinct", .boolean d)])
  | window f as ps os =>
    .tagged "Window"
      (.object [("func", f.toJson), ("args", .array (toJsonList as)),
        ("partition_by", .array (toJsonList ps)), ("order_by", .array (toJsonList os))])
  | subquery k h as ss =>
    .tagged "Subquery"
      (.object [("kind", .text k.tag), ("handle", .integer h.toNat),
        ("args", .array (toJsonList as)), ("correlated", .array (ss.map Slot.toJson))])

def toJsonList : List Expr → List Json
  | [] => []
  | e :: es => e.toJson :: toJsonList es

end

def unaryFields (self : Decoder Expr) : Fields Expr :=
  ((Fields.required "func" UnaryFunc.ofJson).and (.required "expr" self)).map
    fun (f, a) => unary f a

def binaryFields (self : Decoder Expr) : Fields Expr :=
  ((Fields.required "func" BinaryFunc.ofJson).and
    ((Fields.required "expr1" self).and (.required "expr2" self))).map
    fun (f, a, b) => binary f a b

def variadicFields (self : Decoder Expr) : Fields Expr :=
  ((Fields.required "func" VariadicFunc.ofJson).and (.required "exprs" (.list self))).map
    fun (f, as) => variadic f as

def aggregateFields (self : Decoder Expr) : Fields Expr :=
  ((Fields.required "func" AggregateFunc.ofJson).and
    ((Fields.required "expr" self).and (.required "distinct" Decoder.boolean))).map
    fun (f, a, d) => aggregate f a d

def windowFields (self : Decoder Expr) : Fields Expr :=
  ((Fields.required "func" WindowFunc.ofJson).and
    ((Fields.required "args" (.list self)).and
      ((Fields.required "partition_by" (.list self)).and
        (.required "order_by" (.list self))))).map
    fun (f, as, ps, os) => window f as ps os

def subqueryFields (self : Decoder Expr) : Fields Expr :=
  ((Fields.required "kind" SubqueryKind.ofJson).and
    ((Fields.required "handle" Decoder.uint64).and
      ((Fields.required "args" (.list self)).and
        (.required "correlated" (.list Slot.ofJson))))).map
    fun (k, h, as, ss) => subquery k h as ss

def decodeNode (self : Decoder Expr) : Decoder Expr := fun j => do
  match ← Decoder.variant j with
  | ("Slot", contents) => slot <$> Decoder.payload Slot.ofJson contents
  | ("Literal", contents) => literal <$> Decoder.payload Datum.ofJson contents
  | ("CallUnary", contents) => Decoder.payload (unaryFields self).members contents
  | ("CallBinary", contents) => Decoder.payload (binaryFields self).members contents
  | ("CallVariadic", contents) => Decoder.payload (variadicFields self).members contents
  | ("Aggregate", contents) => Decoder.payload (aggregateFields self).record contents
  | ("Window", contents) => Decoder.payload (windowFields self).record contents
  | ("Subquery", contents) => Decoder.payload (subqueryFields self).record contents
  | (tag, _) => .error (.unknownVariant tag)

def ofJson : Decoder Expr := .recursive decodeNode

end Expr

def Conjuncts.toJson (predicates : Conjuncts) : Json := .array (predicates.toList.map Expr.toJson)

def Conjuncts.ofJson : Decoder Conjuncts := fun j =>
  SortedSet.extend .empty <$> Decoder.list Expr.ofJson j

def Alias.toJson (a : Alias) : Json := .object [("slot", a.slot.toJson), ("expr", a.expr.toJson)]

def Alias.ofJson : Decoder Alias :=
  (((Fields.required "slot" Slot.ofJson).and (.required "expr" Expr.ofJson)).map
    fun (slot, expr) => ⟨slot, expr⟩).record

namespace NamedExpr

def toJson : NamedExpr → Json
  | column s => .tagged "Slot" s.toJson
  | aliased a => .tagged "Alias" a.toJson

def ofJson : Decoder NamedExpr := fun j => do
  match ← Decoder.variant j with
  | ("Slot", contents) => column <$> Decoder.payload Slot.ofJson contents
  | ("Alias", contents) => aliased <$> Decoder.payload Alias.ofJson contents
  | (tag, _) => .error (.unknownVariant tag)

end NamedExpr
end QueryPlan

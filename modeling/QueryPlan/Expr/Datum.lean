import QueryPlan.Text.Quoted

namespace QueryPlan

inductive Datum
  | null
  | boolean (value : Bool)
  | integer (value : Int64)
  | text (value : String)
  deriving DecidableEq

namespace Datum

def rank : Datum → Nat
  | null => 0
  | boolean false => 1
  | boolean true => 2
  | integer _ => 3
  | text _ => 4

protected def compare : Datum → Datum → Ordering
  | integer a, integer b => Ord.compare a b
  | text a, text b => Ord.compare a.toList b.toList
  | a, b => Ord.compare a.rank b.rank

instance : Ord Datum := ⟨Datum.compare⟩

def render : Datum → String
  | null => "null"
  | boolean false => "false"
  | boolean true => "true"
  | integer i => toString i.toInt
  | text s => Text.quote s

end Datum
end QueryPlan

namespace QueryPlan

inductive UnaryFunc
  | not | isNull | isTrue | neg
  deriving DecidableEq

namespace UnaryFunc

def all : List UnaryFunc := [.not, .isNull, .isTrue, .neg]

def rank : UnaryFunc → Nat
  | not => 0 | isNull => 1 | isTrue => 2 | neg => 3

def symbol : UnaryFunc → String
  | not => "not" | isNull => "isnull" | isTrue => "istrue" | neg => "-"

def tag : UnaryFunc → String
  | not => "Not" | isNull => "IsNull" | isTrue => "IsTrue" | neg => "Neg"

instance : Ord UnaryFunc := ⟨compareOn rank⟩

theorem compare_def (a b : UnaryFunc) : compare a b = compare a.rank b.rank := rfl

theorem rank_inj {a b : UnaryFunc} : a.rank = b.rank ↔ a = b := by
  cases a <;> cases b <;> decide

theorem compare_eq_iff {a b : UnaryFunc} : compare a b = .eq ↔ a = b :=
  Nat.compare_eq_eq.trans rank_inj

end UnaryFunc

inductive BinaryFunc
  | eq | notEq | lt | lte | gt | gte | add | sub | mul | div
  deriving DecidableEq

namespace BinaryFunc

def all : List BinaryFunc := [.eq, .notEq, .lt, .lte, .gt, .gte, .add, .sub, .mul, .div]

def rank : BinaryFunc → Nat
  | eq => 0 | notEq => 1 | lt => 2 | lte => 3 | gt => 4 | gte => 5
  | add => 6 | sub => 7 | mul => 8 | div => 9

def symbol : BinaryFunc → String
  | eq => "=" | notEq => "!=" | lt => "<" | lte => "<=" | gt => ">" | gte => ">="
  | add => "+" | sub => "-" | mul => "*" | div => "/"

def tag : BinaryFunc → String
  | eq => "Eq" | notEq => "NotEq" | lt => "Lt" | lte => "Lte" | gt => "Gt" | gte => "Gte"
  | add => "Add" | sub => "Sub" | mul => "Mul" | div => "Div"

instance : Ord BinaryFunc := ⟨compareOn rank⟩

theorem compare_def (a b : BinaryFunc) : compare a b = compare a.rank b.rank := rfl

theorem rank_inj {a b : BinaryFunc} : a.rank = b.rank ↔ a = b := by
  cases a <;> cases b <;> decide

theorem compare_eq_iff {a b : BinaryFunc} : compare a b = .eq ↔ a = b :=
  Nat.compare_eq_eq.trans rank_inj

end BinaryFunc

inductive VariadicFunc
  | and | or | coalesce
  deriving DecidableEq

namespace VariadicFunc

def all : List VariadicFunc := [.and, .or, .coalesce]

def rank : VariadicFunc → Nat
  | and => 0 | or => 1 | coalesce => 2

def symbol : VariadicFunc → String
  | and => "AND" | or => "OR" | coalesce => "coalesce"

def tag : VariadicFunc → String
  | and => "And" | or => "Or" | coalesce => "Coalesce"

instance : Ord VariadicFunc := ⟨compareOn rank⟩

theorem compare_def (a b : VariadicFunc) : compare a b = compare a.rank b.rank := rfl

theorem rank_inj {a b : VariadicFunc} : a.rank = b.rank ↔ a = b := by
  cases a <;> cases b <;> decide

theorem compare_eq_iff {a b : VariadicFunc} : compare a b = .eq ↔ a = b :=
  Nat.compare_eq_eq.trans rank_inj

end VariadicFunc

inductive AggregateFunc
  | count | sum | min | max | avg
  deriving DecidableEq

namespace AggregateFunc

def all : List AggregateFunc := [.count, .sum, .min, .max, .avg]

def rank : AggregateFunc → Nat
  | count => 0 | sum => 1 | min => 2 | max => 3 | avg => 4

def symbol : AggregateFunc → String
  | count => "count" | sum => "sum" | min => "min" | max => "max" | avg => "avg"

def tag : AggregateFunc → String
  | count => "Count" | sum => "Sum" | min => "Min" | max => "Max" | avg => "Avg"

instance : Ord AggregateFunc := ⟨compareOn rank⟩

theorem compare_def (a b : AggregateFunc) : compare a b = compare a.rank b.rank := rfl

theorem rank_inj {a b : AggregateFunc} : a.rank = b.rank ↔ a = b := by
  cases a <;> cases b <;> decide

theorem compare_eq_iff {a b : AggregateFunc} : compare a b = .eq ↔ a = b :=
  Nat.compare_eq_eq.trans rank_inj

end AggregateFunc

inductive WindowFunc
  | rowNumber | rank | denseRank | lag | lead
  | aggregate (func : AggregateFunc)
  deriving DecidableEq

namespace WindowFunc

def ranking : List WindowFunc := [.rowNumber, .rank, .denseRank, .lag, .lead]

def position : WindowFunc → Nat
  | rowNumber => 0 | rank => 1 | denseRank => 2 | lag => 3 | lead => 4
  | aggregate f => 5 + f.rank

def symbol : WindowFunc → String
  | rowNumber => "row_number" | rank => "rank" | denseRank => "dense_rank"
  | lag => "lag" | lead => "lead"
  | aggregate f => f.symbol

def tag : WindowFunc → String
  | rowNumber => "RowNumber" | rank => "Rank" | denseRank => "DenseRank"
  | lag => "Lag" | lead => "Lead"
  | aggregate _ => "Aggregate"

instance : Ord WindowFunc := ⟨compareOn position⟩

theorem compare_def (a b : WindowFunc) : compare a b = compare a.position b.position := rfl

theorem position_inj {a b : WindowFunc} : a.position = b.position ↔ a = b := by
  cases a <;> cases b
  case aggregate.aggregate f g => simp [position, AggregateFunc.rank_inj]
  all_goals grind [position]

theorem compare_eq_iff {a b : WindowFunc} : compare a b = .eq ↔ a = b :=
  Nat.compare_eq_eq.trans position_inj

end WindowFunc

inductive SubqueryKind
  | existence | membership | scalar
  deriving DecidableEq

namespace SubqueryKind

def all : List SubqueryKind := [.existence, .membership, .scalar]

def rank : SubqueryKind → Nat
  | .existence => 0 | membership => 1 | scalar => 2

def symbol : SubqueryKind → String
  | .existence => "exists" | membership => "in" | scalar => "scalar"

def tag : SubqueryKind → String
  | .existence => "Exists" | membership => "In" | scalar => "Scalar"

instance : Ord SubqueryKind := ⟨compareOn rank⟩

theorem compare_def (a b : SubqueryKind) : compare a b = compare a.rank b.rank := rfl

theorem rank_inj {a b : SubqueryKind} : a.rank = b.rank ↔ a = b := by
  cases a <;> cases b <;> decide

theorem compare_eq_iff {a b : SubqueryKind} : compare a b = .eq ↔ a = b :=
  Nat.compare_eq_eq.trans rank_inj

end SubqueryKind
end QueryPlan

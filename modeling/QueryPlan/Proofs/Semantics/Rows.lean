import Mathlib.Data.List.Induction
import Mathlib.Data.List.Nodup
import Mathlib.Data.Set.Basic
import Mathlib.Logic.Function.Basic
import QueryPlan.Plan.Basic
import QueryPlan.Proofs.Semantics.Evaluation

/-!
Rows of plans. A row is total, so it also has values outside the plan's output; those mean nothing.
`Interpretation.Yields` relates a plan to each set of rows that it can produce: base relations may
hold any rows, and the operators that keep some rows by means not told here may keep any.
-/
namespace QueryPlan

def passed (outputs : List NamedExpr) : List Slot :=
  outputs.filterMap fun
    | .column s => some s
    | .aliased _ => none

def computed (outputs : List NamedExpr) : List Alias := outputs.filterMap NamedExpr.alias?

def computedIds (outputs : List NamedExpr) : List SlotId :=
  (computed outputs).map fun a => a.slot.id

namespace Interpretation

/-- A row of a projection: columns are passed through from `source`, then the computed ones are set.
In all other columns stands what `base` has. -/
def projected (I : Interpretation) (projections : List NamedExpr) (source base : Row) : Row :=
  (computed projections).foldl (fun row a => Function.update row a.slot.id (I.eval source a.expr))
    ((passed projections).foldl (fun row s => Function.update row s.id (source s.id)) base)

def group (I : Interpretation) (groupKey : List Expr) (rows : Set Row) (leader : Row) : Set Row :=
  {row ∈ rows | ∀ key ∈ groupKey, I.eval row key = I.eval leader key}

/-- A row of an aggregation has the columns passed through from a row of the group; the computed
columns may have any values. -/
def Summarizes (outputs : List NamedExpr) (source row : Row) : Prop :=
  ∀ s ∈ passed outputs, s.id ∉ computedIds outputs → row s.id = source s.id

def Pairs (left right : List Slot) (l r row : Row) : Prop :=
  AgreeOn left row l ∧ AgreeOn right row r

def Matches (I : Interpretation) (join : Join) (left right : List Slot) (l r row : Row) : Prop :=
  Pairs left right l r row ∧ ∀ e ∈ join.condition, I.Holds row e

def NullMatches (I : Interpretation) (join : Join) (left right : List Slot) (l r row : Row) :
    Prop :=
  Pairs left right l r row ∧
    ∀ e ∈ join.condition, I.Holds row e ∨ I.eval row e = .null

/-- The row is `kept` in its columns and null in the other ones. -/
def Padded (columns others : List Slot) (kept row : Row) : Prop :=
  AgreeOn columns row kept ∧ ∀ s ∈ others, s.id ∉ columns.map Slot.id → row s.id = .null

def JoinRow (I : Interpretation) (join : Join) (left right : List Slot) (ls rs : Set Row)
    (row : Row) : Prop :=
  let pair := ∃ l ∈ ls, ∃ r ∈ rs, I.Matches join left right l r row
  let leftMatch := fun l => ∃ r ∈ rs, ∃ both, I.Matches join left right l r both
  let rightMatch := fun r => ∃ l ∈ ls, ∃ both, I.Matches join left right l r both
  let leftPadded := ∃ l ∈ ls, ¬ leftMatch l ∧ Padded left right l row
  let rightPadded := ∃ r ∈ rs, ¬ rightMatch r ∧ Padded right left r row
  match join.kind with
  | .inner | .cross => pair
  | .leftOuter => pair ∨ leftPadded
  | .rightOuter => pair ∨ rightPadded
  | .fullOuter => pair ∨ leftPadded ∨ rightPadded
  | .leftSemi => ∃ l ∈ ls, leftMatch l ∧ AgreeOn left row l
  | .rightSemi => ∃ r ∈ rs, rightMatch r ∧ AgreeOn right row r
  | .leftAnti => ∃ l ∈ ls, ¬ leftMatch l ∧ AgreeOn left row l
  | .rightAnti => ∃ r ∈ rs, ¬ rightMatch r ∧ AgreeOn right row r
  | .nullAwareLeftAnti =>
    ∃ l ∈ ls, ¬ (∃ r ∈ rs, ∃ both, I.NullMatches join left right l r both) ∧ AgreeOn left row l

/-- The plan can produce exactly these rows. -/
inductive Yields (I : Interpretation) : Plan → Set Row → Prop
  | get (r : Relation) (rows : Set Row) : Yields I (.get r) rows
  | project {p rows} (projections : List NamedExpr) (distinct : Bool) (input : Yields I p rows) :
      Yields I (.project p projections distinct)
        {row | ∃ source ∈ rows, ∃ base, row = I.projected projections source base}
  | aggregate {p rows} (groupKey : List Expr) (outputs : List NamedExpr) (summaries : Set Row)
      (input : Yields I p rows)
      (grouped : ∀ row ∈ summaries, ∃ leader ∈ rows, ∃ source ∈ I.group groupKey rows leader,
        Summarizes outputs source row) :
      Yields I (.aggregate p groupKey outputs) summaries
  | filter {p rows} (predicates : Conjuncts) (input : Yields I p rows) :
      Yields I (.filter p predicates) {row ∈ rows | ∀ e ∈ predicates.toList, I.Holds row e}
  | having {p rows} (predicates : Conjuncts) {kept : Set Row} (input : Yields I p rows)
      (sub : kept ⊆ rows) : Yields I (.having p predicates) kept
  | qualify {p rows} (predicates : Conjuncts) {kept : Set Row} (input : Yields I p rows)
      (sub : kept ⊆ rows) : Yields I (.qualify p predicates) kept
  | limit {p rows} (count offset : UInt64) {kept : Set Row} (input : Yields I p rows)
      (sub : kept ⊆ rows) : Yields I (.limit p count offset) kept
  | join {p q ls rs} (join : Join) (left : Yields I p ls) (right : Yields I q rs) :
      Yields I (.join join p q) {row | I.JoinRow join p.output q.output ls rs row}

section
variable (id : α → SlotId) (value : α → Datum)

theorem foldl_update_eq {keys : List α} {row : Row} {x : α} (mem : x ∈ keys)
    (same : ∀ y ∈ keys, id y = id x → value y = value x) :
    keys.foldl (fun row y => Function.update row (id y) (value y)) row (id x) = value x := by
  induction keys using List.reverseRecOn with
  | nil => cases mem
  | append_singleton ys y ih =>
    rw [List.foldl_append, List.foldl_cons, List.foldl_nil]
    by_cases last : id y = id x
    · rw [← last, Function.update_self]
      exact same y (by simp) last
    · rw [Function.update_of_ne (Ne.symm last)]
      rcases List.mem_append.1 mem with earlier | here
      · exact ih earlier fun z hz => same z (List.mem_append_left _ hz)
      · exact absurd (congrArg id (List.mem_singleton.1 here).symm) last

theorem foldl_update_of_notMem {keys : List α} {row : Row} {key : SlotId}
    (absent : key ∉ keys.map id) :
    keys.foldl (fun row y => Function.update row (id y) (value y)) row key = row key := by
  induction keys generalizing row with
  | nil => rfl
  | cons y ys ih =>
    rw [List.map_cons, List.mem_cons, not_or] at absent
    rw [List.foldl_cons, ih absent.2, Function.update_of_ne absent.1]

end

variable {I : Interpretation} {projections : List NamedExpr} {source base : Row}

theorem projected_computed (distinct : (computedIds projections).Nodup) {a : Alias}
    (mem : a ∈ computed projections) :
    I.projected projections source base a.slot.id = I.eval source a.expr := by
  apply foldl_update_eq (fun a : Alias => a.slot.id) _ mem
  intro b other same
  rw [List.inj_on_of_nodup_map distinct other mem same]

theorem projected_passed {s : Slot} (mem : s ∈ passed projections)
    (plain : s.id ∉ computedIds projections) :
    I.projected projections source base s.id = source s.id := by
  rw [projected, foldl_update_of_notMem _ _ plain]
  apply foldl_update_eq Slot.id (fun s => source s.id) mem
  intro t _ same
  rw [same]

end Interpretation
end QueryPlan

import QueryPlan.NamedExpr
import QueryPlan.Proofs.Expr.Parts

namespace QueryPlan
namespace Text

def OneLine (s : String) : Prop := '\n' ∉ s.toList

instance (s : String) : Decidable (OneLine s) := inferInstanceAs (Decidable ('\n' ∉ s.toList))

theorem OneLine.append {s t : String} (first : OneLine s) (second : OneLine t) :
    OneLine (s ++ t) := by
  rw [OneLine, String.toList_append, List.mem_append]
  exact fun found => found.elim first second

theorem oneLine_intercalate {separator : String} {parts : List String} (plain : OneLine separator)
    (each : ∀ s ∈ parts, OneLine s) : OneLine (separator.intercalate parts) := by
  induction parts with
  | nil => simp [OneLine]
  | cons s rest ih =>
    obtain ⟨first, others⟩ := List.forall_mem_cons.1 each
    cases rest with
    | nil => simpa using first
    | cons t rest =>
      rw [String.intercalate_cons_cons]
      exact (first.append plain).append (ih others)

theorem oneLine_commaList {parts : List String} (each : ∀ s ∈ parts, OneLine s) :
    OneLine (commaList parts) :=
  oneLine_intercalate (by decide) each

theorem ne_digitChar (n : Nat) : '\n' ≠ n.digitChar := by
  fun_cases Nat.digitChar n <;> decide

theorem notMem_toDigits {base : Nat} (above : 1 < base) (n : Nat) :
    '\n' ∉ Nat.toDigits base n := by
  induction n using Nat.strongRecOn with
  | ind n ih =>
    rw [Nat.toDigits_eq_if above]
    split
    · simp [ne_digitChar n]
    · rename_i large
      have smaller : n / base < n := Nat.div_lt_self (by omega) above
      simp [ih _ smaller, ne_digitChar]

theorem oneLine_natural (n : Nat) : OneLine (toString n) := by
  rw [OneLine, Nat.toString_eq_repr, Nat.toList_repr]
  exact notMem_toDigits (by decide) n

theorem oneLine_integer (n : Int) : OneLine (toString n) := by
  rw [Int.toString_eq_repr]
  cases n with
  | ofNat n => exact oneLine_natural n
  | negSucc n => exact .append (by decide) (oneLine_natural _)

theorem notMem_escapeCode (c : Char) : '\n' ∉ escapeCode c := by
  simp [escapeCode, notMem_toDigits]

theorem notMem_escape (c : Char) : '\n' ∉ escape c := by
  by_cases lineFeed : c = '\n'
  · rw [lineFeed]
    decide
  · unfold escape
    repeat' split
    all_goals simp [notMem_escapeCode, Ne.symm lineFeed]

theorem oneLine_quote (s : String) : OneLine (quote s) := by
  simp [OneLine, quote, notMem_escape]

end Text

open Text

theorem Slot.oneLine_render {s : Slot} (name : OneLine s.name) : OneLine s.render :=
  (name.append (by decide)).append (oneLine_natural s.id)

theorem Datum.oneLine_render (d : Datum) : OneLine d.render := by
  rcases d with _ | (_ | _) | i | s
  case integer => exact oneLine_integer i.toInt
  case text => exact oneLine_quote s
  all_goals decide

namespace Expr

theorem oneLine_clause {heading : String} {parts : List String} (plain : OneLine heading)
    (each : ∀ s ∈ parts, OneLine s) : ∀ s ∈ clause heading parts, OneLine s := by
  unfold clause
  split
  · simp
  · simpa using plain.append (oneLine_commaList each)

theorem oneLine_renderVariadic {f : VariadicFunc} {args : List String}
    (each : ∀ s ∈ args, OneLine s) : OneLine (renderVariadic f args) := by
  cases f with
  | coalesce =>
    have heading : OneLine (VariadicFunc.coalesce.symbol ++ "(") := by decide
    exact (heading.append (oneLine_commaList each)).append (by decide)
  | and | or =>
    exact (OneLine.append (by decide) (oneLine_intercalate (by decide) each)).append (by decide)

theorem oneLine_renderWindow {f : WindowFunc} {args partitionBy orderBy : List String}
    (args_plain : ∀ s ∈ args, OneLine s) (partitions_plain : ∀ s ∈ partitionBy, OneLine s)
    (orders_plain : ∀ s ∈ orderBy, OneLine s) :
    OneLine (renderWindow f args partitionBy orderBy) := by
  have symbol : OneLine f.symbol := by
    rcases f with _ | _ | _ | _ | _ | f
    case aggregate => cases f <;> decide
    all_goals decide
  have clauses : ∀ s ∈ clause "partition by " partitionBy ++ clause "order by " orderBy,
      OneLine s := by
    rw [List.forall_mem_append]
    exact ⟨oneLine_clause (by decide) partitions_plain, oneLine_clause (by decide) orders_plain⟩
  have call := (symbol.append (t := "(") (by decide)).append (oneLine_commaList args_plain)
  exact ((call.append (by decide)).append (oneLine_intercalate (by decide) clauses)).append
    (by decide)

theorem oneLine_renderSubquery {k : SubqueryKind} {h : UInt64} {args : List String}
    {correlated : List Slot} (each : ∀ s ∈ args, OneLine s)
    (names : ∀ s ∈ correlated, OneLine s.name) :
    OneLine (renderSubquery k h args correlated) := by
  have symbol : OneLine k.symbol := by cases k <;> decide
  have slots : ∀ s ∈ correlated.map Slot.render, OneLine s := by
    rw [List.forall_mem_map]
    exact fun s mem => Slot.oneLine_render (names s mem)
  have call := (symbol.append (t := "[") (by decide)).append (oneLine_commaList each)
  have opened := call.append (t := "](subquery#") (by decide)
  refine ((opened.append (oneLine_natural h.toNat)).append (t := ")") (by decide)).append ?_
  split
  · decide
  · exact (OneLine.append (by decide) (oneLine_commaList slots)).append (by decide)

theorem oneLine_render {e : Expr} (names : ∀ s ∈ e.slots, OneLine s.name) : OneLine e.render := by
  induction e using induct with
  | step e ih =>
    rw [slots_eq, List.forall_mem_append, List.forall_mem_flatMap] at names
    obtain ⟨below, own⟩ := names
    have parts : ∀ c ∈ e.children, OneLine c.render := fun c child => ih c child (below c child)
    have listed {es : List Expr} (sub : es ⊆ e.children) : ∀ s ∈ renderList es, OneLine s := by
      rw [renderList_eq_map, List.forall_mem_map]
      exact fun c mem => parts c (sub mem)
    cases e with
    | slot s => exact Slot.oneLine_render (own s (List.mem_singleton_self s))
    | literal d => exact d.oneLine_render
    | unary f a =>
      have arg := parts a (by simp [children])
      cases f with
      | neg => exact .append (by decide) arg
      | not | isNull | isTrue => exact (OneLine.append (by decide) arg).append (by decide)
    | binary f a b =>
      have symbol : OneLine f.symbol := by cases f <;> decide
      have left := parts a (by simp [children])
      have right := parts b (by simp [children])
      have first := ((OneLine.append (s := "(") (by decide) left).append (t := " ") (by decide))
      exact (((first.append symbol).append (by decide)).append right).append (by decide)
    | variadic f as => exact oneLine_renderVariadic (listed (List.Subset.refl as))
    | aggregate f a d =>
      have symbol : OneLine f.symbol := by cases f <;> decide
      have mark : OneLine (if d then "distinct " else "") := by cases d <;> decide
      have arg := parts a (by simp [children])
      exact (((symbol.append (by decide)).append mark).append arg).append (by decide)
    | window f as ps os =>
      exact oneLine_renderWindow (listed (by simp [children])) (listed (by simp [children]))
        (listed (by simp [children]))
    | subquery k h as ss => exact oneLine_renderSubquery (listed (List.Subset.refl as)) own

end Expr

theorem NamedExpr.oneLine_render {e : NamedExpr} (slot : OneLine e.slot.name)
    (read : ∀ s ∈ e.expr.slots, OneLine s.name) : OneLine e.render := by
  cases e with
  | column s => exact s.oneLine_render slot
  | aliased a =>
    exact ((a.expr.oneLine_render read).append (by decide)).append (a.slot.oneLine_render slot)

end QueryPlan

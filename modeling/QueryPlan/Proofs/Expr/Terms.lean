import QueryPlan.Expr.Conjunction
import QueryPlan.Proofs.Expr.NameBlind
import QueryPlan.Proofs.Expr.Renaming

namespace QueryPlan

def Substitution.PutsColumns (map : Substitution) : Prop := ∀ pair ∈ map, ∃ s, pair.2 = .slot s

theorem Substitution.PutsColumns.exists_slot {map : Substitution} (columns : map.PutsColumns)
    {e value : Expr} (found : map.lookup e = some value) : ∃ s, value = .slot s := by
  obtain ⟨key, mem, _⟩ := mem_of_lookup found
  exact columns _ mem

namespace Expr

/-- A conjunction that is taken apart ends here. -/
def isTerm : Expr → Bool
  | variadic .and _ => false
  | literal (.boolean true) => false
  | _ => true

def Avoids (map : Substitution) (e : Expr) : Prop := ∀ part ∈ e.postorder, map.lookup part = none

instance (map : Substitution) (e : Expr) : Decidable (e.Avoids map) :=
  inferInstanceAs (Decidable (∀ part ∈ e.postorder, map.lookup part = none))

/-- No column is read, correlated ones included. -/
def ColumnFree (e : Expr) : Prop := e.ReadsOnly fun _ => False

instance (e : Expr) : Decidable e.ColumnFree :=
  inferInstanceAs (Decidable (e.ReadsOnly fun _ => False))

variable {e : Expr} {map : Substitution}

theorem conjuncts_of_isTerm (term : e.isTerm = true) : e.conjuncts = [e] := by
  rw [conjuncts_eq]
  split
  · cases term
  · cases term
  · rfl

theorem isTerm_of_mem_conjuncts {p : Expr} (mem : p ∈ e.conjuncts) : p.isTerm = true := by
  induction e using induct with
  | step e ih =>
    rw [conjuncts_eq] at mem
    split at mem
    · obtain ⟨c, child, sub⟩ := List.mem_flatMap.1 mem
      exact ih c child sub
    · cases mem
    · rename_i conjunction truth
      rw [List.mem_singleton.1 mem, isTerm]
      · exact conjunction
      · exact truth

theorem isTerm_withChildren (e : Expr) (cs : List Expr) :
    (e.withChildren cs).isTerm = e.isTerm := by
  unfold withChildren
  split
  case h_3 =>
    rename_i f _
    cases f <;> rfl
  all_goals rfl

theorem isTerm_eq_of_alike {a b : Expr} (equal : Alike a b) : a.isTerm = b.isTerm :=
  root_eq_of_alike isTerm_withChildren (fun e => by cases e <;> rfl) equal

theorem isTerm_rename {s t : Slot} (e : Expr) : (e.rename s t).isTerm = e.isTerm :=
  root_rename (fun _ _ => rfl) isTerm_withChildren e

theorem isTerm_substitute (columns : map.PutsColumns) (term : e.isTerm = true) :
    (e.substitute map).isTerm = true := by
  rw [substitute_eq]
  cases found : map.lookup e with
  | none => rw [Option.getD_none, isTerm_withChildren, term]
  | some value =>
    obtain ⟨s, rfl⟩ := columns.exists_slot found
    rfl

theorem flatMap_conjuncts {es : List Expr} (terms : ∀ e ∈ es, e.isTerm = true) :
    es.flatMap conjuncts = es := by
  rw [List.flatMap_congr fun e mem => conjuncts_of_isTerm (terms e mem)]
  exact List.flatMap_singleton' es

theorem conjuncts_substitute_andAll {es : List Expr} (columns : map.PutsColumns)
    (terms : ∀ e ∈ es, e.isTerm = true) (apart : map.lookup (andAll es) = none) :
    ((andAll es).substitute map).conjuncts = es.map (·.substitute map) := by
  have results : ∀ e ∈ es.map (·.substitute map), e.isTerm = true := by
    rw [List.forall_mem_map]
    exact fun e mem => isTerm_substitute columns (terms e mem)
  rcases es with _ | ⟨e, _ | ⟨f, es⟩⟩
  · rw [substitute_eq, apart]
    rfl
  · exact conjuncts_of_isTerm (results _ (List.mem_singleton_self _))
  · rw [substitute_eq, apart, Option.getD_none, conjuncts_eq]
    exact flatMap_conjuncts results

theorem Avoids.substitute (avoids : e.Avoids map) : e.substitute map = e :=
  substitute_eq_self avoids

theorem ColumnFree.within (free : e.ColumnFree) (columns : List Slot) : e.Within columns :=
  fun s mem => (free s mem).elim

theorem not_columnFree_slot (s : Slot) : ¬ (slot s).ColumnFree := readsOnly_slot.1

theorem within_substitute {columns : List Slot} (within : e.Within columns)
    (put : ∀ pair ∈ map, pair.2.Within columns) : (e.substitute map).Within columns :=
  readsOnly_substitute within fun _ _ found =>
    let ⟨_, mem, _⟩ := mem_of_lookup found
    put _ mem

theorem avoids_of_columnFree (columns : map.PutsColumns) (free : (e.substitute map).ColumnFree) :
    e.Avoids map := by
  induction e using induct with
  | step e ih =>
    rw [substitute_eq] at free
    cases found : map.lookup e with
    | some value =>
      obtain ⟨s, rfl⟩ := columns.exists_slot found
      rw [found, Option.getD_some] at free
      exact (not_columnFree_slot s free).elim
    | none =>
      rw [found, Option.getD_none] at free
      intro part sub
      rcases mem_postorder_iff.1 sub with ⟨c, child, sub⟩ | rfl
      · refine ih c child (free.of_part ?_) part sub
        refine mem_postorder_of_child ?_ (mem_postorder_self _)
        rw [children_withChildren (List.length_map _)]
        exact List.mem_map_of_mem child
      · exact found

end Expr
end QueryPlan

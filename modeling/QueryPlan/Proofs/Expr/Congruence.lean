import Mathlib.Data.List.Forall2
import QueryPlan.Proofs.Expr.Names

namespace QueryPlan

theorem listKey_map {f : α → α} {key : α → List Int} {xs : List α}
    (same : ∀ x ∈ xs, key (f x) = key x) : listKey key (xs.map f) = listKey key xs := by
  induction xs with
  | nil => rfl
  | cons x xs ih =>
    obtain ⟨first, rest⟩ := List.forall_mem_cons.1 same
    simp only [List.map_cons, listKey, first, ih rest]

namespace Expr

theorem key_bare (e : Expr) : e.bare.key = e.key := by
  induction e using induct with
  | step e ih =>
    cases e with
    | slot s => rfl
    | literal d => rfl
    | unary f a =>
      rw [bare_unary, key, key, ih a (by simp [children])]
    | binary f a b =>
      rw [bare_binary, key, key, ih a (by simp [children]), ih b (by simp [children])]
    | variadic f as =>
      have args := listKey_map fun a mem => ih a (by simpa [children] using mem)
      rw [bare_variadic, key, key, keyList_eq, keyList_eq, args]
    | aggregate f a d =>
      rw [bare_aggregate, key, key, ih a (by simp [children])]
    | window f as ps os =>
      have args := listKey_map fun a (mem : a ∈ as) => ih a (by simp [children, mem])
      have partitions := listKey_map fun a (mem : a ∈ ps) => ih a (by simp [children, mem])
      have orders := listKey_map fun a (mem : a ∈ os) => ih a (by simp [children, mem])
      simp only [bare_window, key, keyList_eq, args, partitions, orders]
    | subquery k h as ss =>
      have args := listKey_map fun a mem => ih a (by simpa [children] using mem)
      have correlated : listKey (fun s : Slot => [(s.id : Int)]) (ss.map Slot.bare) =
          listKey (fun s : Slot => [(s.id : Int)]) ss := listKey_map fun _ _ => rfl
      simp only [bare_subquery, key, keyList_eq, args, correlated]

theorem beq_iff_bare {a b : Expr} : (a == b) = true ↔ a.bare = b.bare := by
  constructor
  · exact bare_eq_of_beq
  · intro same
    rw [beq_iff_compare, keyOf.compare_eq, ← key_bare a, same, key_bare]
    exact Std.ReflCmp.compare_self

instance : Std.LawfulBEqOrd Expr where
  compare_eq_iff_beq := beq_iff_compare.symm

instance : EquivBEq Expr where
  symm same := beq_iff_bare.2 (beq_iff_bare.1 same).symm
  trans first second := beq_iff_bare.2 ((beq_iff_bare.1 first).trans (beq_iff_bare.1 second))

theorem forall₂_beq_iff {as bs : List Expr} :
    List.Forall₂ (fun a b => (a == b) = true) as bs ↔ as.map bare = bs.map bare := by
  simp only [beq_iff_bare, ← List.forall₂_eq_eq_eq, List.forall₂_map_left_iff,
    List.forall₂_map_right_iff]

theorem bare_withChildren {e : Expr} {cs : List Expr} (len : cs.length = e.children.length) :
    (e.withChildren cs).bare = e.bare.withChildren (cs.map bare) := by
  cases e <;> simp only [children, List.length_nil, List.length_cons, List.length_append] at len
  case slot | literal =>
    rw [List.eq_nil_of_length_eq_zero len]
    rfl
  case unary f _ =>
    obtain ⟨a, rfl⟩ := List.length_eq_one_iff.1 len
    exact bare_unary f a
  case binary f _ _ =>
    match cs, len with
    | [a, b], _ => exact bare_binary f a b
  case variadic f _ => exact bare_variadic f cs
  case aggregate f _ d =>
    obtain ⟨a, rfl⟩ := List.length_eq_one_iff.1 len
    exact bare_aggregate f a d
  case window =>
    simp only [withChildren, bare_window, List.map_take, List.map_drop, List.length_map]
  case subquery k h _ ss =>
    rw [bare_subquery]
    exact bare_subquery k h cs ss

theorem withChildren_withChildren {e : Expr} {cs ds : List Expr}
    (len : cs.length = e.children.length) (len' : ds.length = e.children.length) :
    (e.withChildren cs).withChildren ds = e.withChildren ds := by
  cases e <;>
    simp only [children, List.length_nil, List.length_cons, List.length_append] at len len'
  case slot | literal =>
    rw [List.eq_nil_of_length_eq_zero len]
    rfl
  case unary | aggregate =>
    obtain ⟨a, rfl⟩ := List.length_eq_one_iff.1 len
    obtain ⟨b, rfl⟩ := List.length_eq_one_iff.1 len'
    rfl
  case binary =>
    match cs, ds, len, len' with
    | [_, _], [_, _], _, _ => rfl
  case variadic | subquery => rfl
  case window f as ps os =>
    have first : (cs.take as.length).length = as.length := by
      rw [List.length_take]
      omega
    have second : ((cs.drop as.length).take ps.length).length = ps.length := by
      rw [List.length_take, List.length_drop]
      omega
    simp only [withChildren, first, second]

theorem bare_bareNode (e : Expr) : e.bareNode.bare = e.bare := by
  have node : e.bareNode.bareNode = e.bareNode := by
    cases e <;> simp [bareNode, Slot.bare, Function.comp_def]
  rw [bare_eq, node, children_bareNode, ← bare_eq]

theorem bare_bare (e : Expr) : e.bare.bare = e.bare := by
  induction e using induct with
  | step e ih =>
    have len : (e.children.map bare).length = e.bareNode.children.length := by
      rw [children_bareNode, List.length_map]
    have parts : (e.children.map bare).map bare = e.bare.children := by
      rw [children_bare, List.map_map]
      exact List.map_congr_left ih
    rw [bare_eq e, bare_withChildren len, bare_bareNode, parts, withChildren_children, ← bare_eq]

theorem bare_beq (e : Expr) : (e.bare == e) = true := beq_iff_bare.2 (bare_bare e)

theorem withChildren_beq {e : Expr} {as bs : List Expr} (len : as.length = e.children.length)
    (equal : List.Forall₂ (fun a b => (a == b) = true) as bs) :
    (e.withChildren as == e.withChildren bs) = true := by
  have len' : bs.length = e.children.length := equal.length_eq ▸ len
  rw [beq_iff_bare, bare_withChildren len, bare_withChildren len', forall₂_beq_iff.1 equal]

theorem lookup_eq_of_beq {a b : Expr} (equal : (a == b) = true) (map : Substitution) :
    map.lookup a = map.lookup b := by
  induction map with
  | nil => rfl
  | cons pair rest ih =>
    have key : (a == pair.1) = (b == pair.1) := by
      rw [Bool.eq_iff_iff, beq_iff_bare, beq_iff_bare, beq_iff_bare.1 equal]
    rw [List.lookup_cons, List.lookup_cons, key, ih]

theorem substitute_bare (e : Expr) (map : Substitution) :
    (e.bare.substitute map).bare = (e.substitute map).bare := by
  induction e using induct with
  | step e ih =>
    rw [substitute_eq, substitute_eq e, lookup_eq_of_beq (bare_beq e)]
    cases map.lookup e with
    | some value => rfl
    | none =>
      have parts : (e.bare.children.map (substitute · map)).map bare =
          (e.children.map (substitute · map)).map bare := by
        rw [children_bare, List.map_map, List.map_map, List.map_map]
        exact List.map_congr_left ih
      rw [Option.getD_none, Option.getD_none, bare_withChildren (List.length_map _),
        bare_withChildren (List.length_map _), parts, bare_bare]

theorem substitute_beq {a b : Expr} (equal : (a == b) = true) (map : Substitution) :
    (a.substitute map == b.substitute map) = true := by
  rw [beq_iff_bare, ← substitute_bare a, beq_iff_bare.1 equal, substitute_bare]

end Expr
end QueryPlan

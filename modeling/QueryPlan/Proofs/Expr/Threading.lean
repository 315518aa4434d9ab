import Mathlib.Data.List.Forall2
import QueryPlan.Proofs.Expr.Parts

/-!
Reasoning about replacement. What each step does and what is put together again from replaced
children determines what a replacement does. Main statements: a property kept while the state grows
holds of all results at the end, and where each change lowers a cost, a replacement that lowers
nothing has changed nothing.
-/
namespace QueryPlan

section
variable {R : α → β → Prop} {as : List α} {bs : List β}

theorem exists_right_of_forall₂ (related : List.Forall₂ R as bs) {a : α} (mem : a ∈ as) :
    ∃ b ∈ bs, R a b := by
  induction related with
  | nil => cases mem
  | cons first rest ih =>
    rcases List.mem_cons.1 mem with rfl | mem
    · exact ⟨_, List.mem_cons_self .., first⟩
    · obtain ⟨b, found, pair⟩ := ih mem
      exact ⟨b, List.mem_cons_of_mem _ found, pair⟩

theorem exists_left_of_forall₂ (related : List.Forall₂ R as bs) {b : β} (mem : b ∈ bs) :
    ∃ a ∈ as, R a b :=
  exists_right_of_forall₂ related.flip mem

end

namespace Expr

/-- Said of each replacement in a list, the state being passed on. -/
inductive Threaded (M : σ → Expr → Expr → σ → Prop) : σ → List Expr → List Expr → σ → Prop
  | nil {s} : Threaded M s [] [] s
  | cons {s e r t es rs u} (first : M s e r t) (rest : Threaded M t es rs u) :
      Threaded M s (e :: es) (r :: rs) u

variable {step : Expr → σ → Option (Expr × σ)} {M : σ → Expr → Expr → σ → Prop}

theorem Threaded.length {s t : σ} {es rs : List Expr} (run : Threaded M s es rs t) :
    rs.length = es.length := by
  induction run with
  | nil => rfl
  | cons first rest ih => rw [List.length_cons, List.length_cons, ih]

theorem threaded_sequence {es : List Expr}
    (each : ∀ e ∈ es, ∀ s, M s e (e.replace step s).1 (e.replace step s).2) (s : σ) :
    Threaded M s es (sequence (es.map (replace step)) s).1
      (sequence (es.map (replace step)) s).2 := by
  induction es generalizing s with
  | nil => exact .nil
  | cons e es ih =>
    obtain ⟨first, others⟩ := List.forall_mem_cons.1 each
    exact .cons (first s) (ih others _)

theorem replace_induct (fire : ∀ s e r t, step e s = some (r, t) → M s e r t)
    (build : ∀ s e cs t, step e s = none → Threaded M s e.children cs t →
      M s e (e.withChildren cs) t) (e : Expr) (s : σ) :
    M s e (e.replace step s).1 (e.replace step s).2 := by
  induction e using induct generalizing s with
  | step e ih =>
    rw [replace_eq]
    cases found : step e s with
    | some r => exact fire s e r.1 r.2 found
    | none => exact build s e _ _ found (threaded_sequence ih s)

theorem replaceAll_induct (fire : ∀ s e r t, step e s = some (r, t) → M s e r t)
    (build : ∀ s e cs t, step e s = none → Threaded M s e.children cs t →
      M s e (e.withChildren cs) t) (es : List Expr) (s : σ) :
    Threaded M s es (replaceAll step es s).1 (replaceAll step es s).2 :=
  threaded_sequence (fun e _ => replace_induct fire build e) s

section
variable {I : σ → Prop} {A : Expr → Prop} {R : σ → σ → Prop} {Q : σ → Expr → Expr → Prop}

theorem Threaded.keeps (refl : ∀ s, R s s) (trans : ∀ s t u, R s t → R t u → R s u)
    (mono : ∀ s t e r, R s t → Q s e r → Q t e r) {s t : σ} {es rs : List Expr}
    (run : Threaded (fun s e r t => I s → A e → I t ∧ R s t ∧ Q t e r) s es rs t)
    (start : I s) (all : ∀ e ∈ es, A e) : I t ∧ R s t ∧ List.Forall₂ (Q t) es rs := by
  induction run with
  | nil => exact ⟨start, refl _, .nil⟩
  | cons first rest ih =>
    obtain ⟨head, tail⟩ := List.forall_mem_cons.1 all
    obtain ⟨kept, grown, holds⟩ := first start head
    obtain ⟨kept', grown', others⟩ := ih kept tail
    exact ⟨kept', trans _ _ _ grown grown', .cons (mono _ _ _ _ grown' holds) others⟩

/-- An invariant of the state that each step keeps on admitted expressions holds in the end, and
what each step and each rebuilt node has at the time, all results have in the end. -/
theorem replaceAll_keeps (refl : ∀ s, R s s) (trans : ∀ s t u, R s t → R t u → R s u)
    (mono : ∀ s t e r, R s t → Q s e r → Q t e r)
    (fire : ∀ s e r t, step e s = some (r, t) → I s → A e → I t ∧ R s t ∧ Q t e r)
    (descend : ∀ s e, step e s = none → I s → A e → ∀ c ∈ e.children, A c)
    (build : ∀ s e cs t, step e s = none → I s → A e → List.Forall₂ (Q t) e.children cs →
      Q t e (e.withChildren cs)) {es : List Expr} {s : σ} (start : I s) (all : ∀ e ∈ es, A e) :
    I (replaceAll step es s).2 ∧ R s (replaceAll step es s).2 ∧
      List.Forall₂ (Q (replaceAll step es s).2) es (replaceAll step es s).1 := by
  apply Threaded.keeps refl trans mono _ start all
  apply replaceAll_induct fire
  intro s e cs t found run kept admitted
  obtain ⟨kept', grown, parts⟩ :=
    run.keeps refl trans mono kept (descend s e found kept admitted)
  exact ⟨kept', grown, build s e cs t found kept admitted parts⟩

theorem replaceAll_grows (refl : ∀ s, R s s) (trans : ∀ s t u, R s t → R t u → R s u)
    (mono : ∀ s t e r, R s t → Q s e r → Q t e r)
    (fire : ∀ s e r t, step e s = some (r, t) → R s t ∧ Q t e r)
    (build : ∀ s e cs t, step e s = none → List.Forall₂ (Q t) e.children cs →
      Q t e (e.withChildren cs)) (es : List Expr) (s : σ) :
    R s (replaceAll step es s).2 ∧
      List.Forall₂ (Q (replaceAll step es s).2) es (replaceAll step es s).1 := by
  refine (replaceAll_keeps (I := fun _ => True) (A := fun _ => True) refl trans mono ?_ ?_ ?_
    trivial fun _ _ => trivial).2
  · exact fun s e r t found _ _ => ⟨trivial, fire s e r t found⟩
  · exact fun _ _ _ _ _ _ _ => trivial
  · exact fun s e cs t found _ _ parts => build s e cs t found parts

theorem state_replaceAll (refl : ∀ s, R s s) (trans : ∀ s t u, R s t → R t u → R s u)
    (fire : ∀ s e r t, step e s = some (r, t) → R s t) (es : List Expr) (s : σ) :
    R s (replaceAll step es s).2 := by
  refine (replaceAll_grows (Q := fun _ _ _ => True) refl trans ?_ ?_ ?_ es s).1
  · exact fun _ _ _ _ _ _ => trivial
  · exact fun s e r t found => ⟨fire s e r t found, trivial⟩
  · exact fun _ _ _ _ _ _ => trivial

end

theorem Threaded.foldl {items : Expr → List α} {handle : σ → α → σ} {s t : σ} {es rs : List Expr}
    (run : Threaded (fun s e _ t => t = (items e).foldl handle s) s es rs t) :
    t = (es.flatMap items).foldl handle s := by
  induction run with
  | nil => rfl
  | cons first rest ih => rw [List.flatMap_cons, List.foldl_append, ← first, ih]

theorem Threaded.origin {items : σ → List α} {P : α → Expr → Prop} {s t : σ} {es rs : List Expr}
    (run : Threaded (fun s e _ t => ∀ a ∈ items t, a ∈ items s ∨ P a e) s es rs t) :
    ∀ a ∈ items t, a ∈ items s ∨ ∃ e ∈ es, P a e := by
  induction run with
  | nil => exact fun _ => Or.inl
  | cons first rest ih =>
    intro a mem
    rcases ih a mem with earlier | ⟨e, found, holds⟩
    · refine (first a earlier).imp_right fun holds => ?_
      exact ⟨_, List.mem_cons_self .., holds⟩
    · exact Or.inr ⟨e, List.mem_cons_of_mem _ found, holds⟩

theorem Threaded.flip {s t : σ} {es rs : List Expr} (run : Threaded M s es rs t) :
    Threaded (fun s r e t => M s e r t) s rs es t := by
  induction run with
  | nil => exact .nil
  | cons first rest ih => exact .cons first ih

def Stable (step : Expr → σ → Option (Expr × σ)) (s : σ) (e : Expr) : Prop :=
  ∀ part ∈ e.postorder, ∀ r, step part s = some r → r = (part, s)

theorem stable_of_children {s : σ} {e : Expr} (root : ∀ r, step e s = some r → r = (e, s))
    (parts : ∀ c ∈ e.children, Stable step s c) : Stable step s e := by
  intro part sub
  rcases mem_postorder_iff.1 sub with ⟨c, child, sub⟩ | rfl
  · exact parts c child part sub
  · exact root

theorem sequence_stable {s : σ} {es : List Expr} (each : ∀ e ∈ es, e.replace step s = (e, s)) :
    sequence (es.map (replace step)) s = (es, s) := by
  induction es with
  | nil => rfl
  | cons e es ih =>
    obtain ⟨first, others⟩ := List.forall_mem_cons.1 each
    rw [List.map_cons, sequence, first]
    simp only [ih others]

theorem Stable.replace_eq {s : σ} {e : Expr} (stable : Stable step s e) :
    e.replace step s = (e, s) := by
  induction e using induct with
  | step e ih =>
    rw [Expr.replace_eq]
    cases found : step e s with
    | some r => exact stable e (mem_postorder_self e) r found
    | none =>
      have parts := sequence_stable fun c child =>
        ih c child fun part sub => stable part (mem_postorder_of_child child sub)
      simp only [Option.getD_none, parts, withChildren_children]

theorem replaceAll_stable {s : σ} {es : List Expr} (stable : ∀ e ∈ es, Stable step s e) :
    replaceAll step es s = (es, s) :=
  sequence_stable fun e mem => (stable e mem).replace_eq

variable {cost : σ → Nat}

def StableOrLess (step : Expr → σ → Option (Expr × σ)) (cost : σ → Nat) (s : σ) (e r : Expr)
    (t : σ) : Prop :=
  (Stable step s e ∧ r = e ∧ t = s) ∨ r.weight + cost t < e.weight + cost s

theorem Threaded.stable_or_less {s t : σ} {es rs : List Expr}
    (run : Threaded (StableOrLess step cost) s es rs t) :
    ((∀ e ∈ es, Stable step s e) ∧ rs = es ∧ t = s) ∨
      sum (rs.map weight) + cost t < sum (es.map weight) + cost s := by
  induction run with
  | nil => exact Or.inl ⟨by simp, rfl, rfl⟩
  | cons first rest ih =>
    simp only [List.map_cons, sum_cons]
    rcases first with ⟨still, rfl, rfl⟩ | less
    · rcases ih with ⟨others, rfl, rfl⟩ | less
      · exact Or.inl ⟨List.forall_mem_cons.2 ⟨still, others⟩, rfl, rfl⟩
      · exact Or.inr (by omega)
    · rcases ih with ⟨_, rfl, rfl⟩ | less'
      · exact Or.inr (by omega)
      · exact Or.inr (by omega)

theorem replaceAll_stable_or_less (step : Expr → σ → Option (Expr × σ)) (cost : σ → Nat)
    (fire : ∀ s e r t, step e s = some (r, t) →
      (e.children = [] ∧ r = e ∧ t = s) ∨ r.weight + cost t < e.weight + cost s)
    (es : List Expr) (s : σ) :
    (∀ e ∈ es, Stable step s e) ∨
      sum ((replaceAll step es s).1.map weight) + cost (replaceAll step es s).2 <
        sum (es.map weight) + cost s := by
  have run : Threaded (StableOrLess step cost) s es (replaceAll step es s).1
      (replaceAll step es s).2 := by
    apply replaceAll_induct
    · intro s e r t found
      rcases fire s e r t found with ⟨leaf, rfl, rfl⟩ | less
      · refine Or.inl ⟨stable_of_children (fun other again => ?_) (by simp [leaf]), rfl, rfl⟩
        exact Option.some.inj (again.symm.trans found)
      · exact Or.inr less
    · intro s e cs t found run
      have len := run.length
      rcases run.stable_or_less with ⟨parts, rfl, rfl⟩ | less
      · exact Or.inl ⟨stable_of_children (by simp [found]) parts, withChildren_children e, rfl⟩
      · refine Or.inr ?_
        rw [weight_eq, children_withChildren len, isSlot_withChildren, weight_eq e]
        omega
  exact run.stable_or_less.imp_left fun ⟨still, _⟩ => still

theorem eq_or_sum_weight_lt {es rs : List Expr}
    (each : List.Forall₂ (fun e r => r = e ∨ r.weight < e.weight) es rs) :
    rs = es ∨ sum (rs.map weight) < sum (es.map weight) := by
  induction each with
  | nil => exact Or.inl rfl
  | cons first rest ih =>
    simp only [List.map_cons, sum_cons]
    rcases first with rfl | less
    · rcases ih with rfl | less
      · exact Or.inl rfl
      · exact Or.inr (by omega)
    · rcases ih with rfl | less'
      · exact Or.inr (by omega)
      · exact Or.inr (by omega)

theorem replaceAll_eq_or_lighter {step : Expr → σ → Option (Expr × σ)}
    (fire : ∀ s e r t, step e s = some (r, t) → r = e ∨ r.weight < e.weight)
    (es : List Expr) (s : σ) :
    List.Forall₂ (fun e r => r = e ∨ r.weight < e.weight) es (replaceAll step es s).1 := by
  refine (replaceAll_grows (R := fun _ _ => True)
    (Q := fun _ e r => r = e ∨ r.weight < e.weight) ?_ ?_ ?_ ?_ ?_ es s).2
  · exact fun _ => trivial
  · exact fun _ _ _ _ _ => trivial
  · exact fun _ _ _ _ _ kept => kept
  · exact fun s e r t found => ⟨trivial, fire s e r t found⟩
  · intro s e cs t _ parts
    have len := parts.length_eq.symm
    rcases eq_or_sum_weight_lt parts with rfl | less
    · exact Or.inl (withChildren_children e)
    · refine Or.inr ?_
      rw [weight_eq, children_withChildren len, isSlot_withChildren, weight_eq e]
      omega

end Expr
end QueryPlan

import QueryPlan.Proofs.Equality
import QueryPlan.Proofs.Expr.Congruence
import QueryPlan.Proofs.Expr.Reading

namespace QueryPlan

namespace Expr
variable {a b : Expr}

theorem slot_alike {s t : Slot} (same : Alike s t) : Alike (slot s) (slot t) :=
  slot_beq_iff.2 ⟨t, rfl, Slot.beq_iff.1 same⟩

theorem children_alike (equal : Alike a b) : List.Forall₂ Alike a.children b.children :=
  forall₂_beq_iff.2 (by rw [← children_bare, ← children_bare, bare_eq_of_beq equal])

theorem withChildren_alike (equal : Alike a b) {as bs : List Expr}
    (len : as.length = a.children.length) (parts : List.Forall₂ Alike as bs) :
    Alike (a.withChildren as) (b.withChildren bs) := by
  have len' : bs.length = b.children.length := by
    rw [← parts.length_eq, len, (children_alike equal).length_eq]
  exact beq_iff_bare.2 (by
    rw [bare_withChildren len, bare_withChildren len', bare_eq_of_beq equal,
      forall₂_beq_iff.1 parts])

theorem root_eq_of_alike {root : Expr → α} (parts : ∀ e cs, root (e.withChildren cs) = root e)
    (node : ∀ e, root e.bareNode = root e) (equal : Alike a b) : root a = root b := by
  have blind (e : Expr) : root e.bare = root e := by rw [bare_eq, parts, node]
  rw [← blind a, bare_eq_of_beq equal, blind]

theorem isSlot_eq_of_alike (equal : Alike a b) : a.isSlot = b.isSlot :=
  root_eq_of_alike isSlot_withChildren (fun e => by cases e <;> rfl) equal

theorem isWindow_eq_of_alike (equal : Alike a b) : a.isWindow = b.isWindow :=
  root_eq_of_alike isWindow_withChildren (fun e => by cases e <;> rfl) equal

theorem isCorrelatedSubquery_eq_of_alike (equal : Alike a b) :
    a.isCorrelatedSubquery = b.isCorrelatedSubquery := by
  refine root_eq_of_alike (fun e cs => ?_) (fun e => ?_) equal
  · unfold withChildren
    split <;> rfl
  · cases e <;> simp [bareNode, isCorrelatedSubquery]

theorem inputSlots_alike (equal : Alike a b) : Alike a.inputSlots b.inputSlots := by
  have reads (e : Expr) (s : Slot) :
      e.inputSlots.contains s = true ↔ ¬ e.ReadsOnly (· ≠ s.id) := by
    rw [contains_slot_iff]
    simp [ReadsOnly]
  refine SortedSet.beq_of_contains fun s => ?_
  rw [Bool.eq_iff_iff, reads, reads, readsOnly_iff_of_beq equal]

theorem conjuncts_bare (e : Expr) : e.bare.conjuncts = e.conjuncts.map bare := by
  induction e using induct with
  | step e ih =>
    rw [conjuncts_eq, conjuncts_eq e]
    cases e with
    | variadic f as =>
      rw [bare_variadic]
      cases f with
      | and =>
        have parts : as.map (conjuncts ∘ bare) = as.map (List.map bare ∘ conjuncts) :=
          List.map_congr_left ih
        simp only [List.flatMap_def, List.map_flatten, List.map_map, parts]
      | or | coalesce => simp [bare_variadic]
    | slot s => rfl
    | literal d => rcases d with _ | (_ | _) | _ | _ <;> rfl
    | unary => simp [bare_unary]
    | binary => simp [bare_binary]
    | aggregate => simp [bare_aggregate]
    | window => simp [bare_window]
    | subquery => simp [bare_subquery]

theorem conjuncts_alike (equal : Alike a b) : List.Forall₂ Alike a.conjuncts b.conjuncts :=
  forall₂_beq_iff.2 (by rw [← conjuncts_bare, ← conjuncts_bare, bare_eq_of_beq equal])

theorem andAll_alike {as bs : List Expr} (parts : List.Forall₂ Alike as bs) :
    Alike (andAll as) (andAll bs) := by
  cases parts with
  | nil => exact BEq.rfl
  | cons first rest =>
    cases rest with
    | nil => exact first
    | cons second others =>
      have terms := List.Forall₂.cons first (.cons second others)
      exact withChildren_alike (a := variadic .and (_ :: _ :: _)) BEq.rfl rfl terms

section
variable {R : σ → τ → Prop} {step : Expr → σ → Option (Expr × σ)}
  {step' : Expr → τ → Option (Expr × τ)} {s : σ} {t : τ}

def Together (R : σ → τ → Prop) (x : Expr × σ) (y : Expr × τ) : Prop :=
  Alike x.1 y.1 ∧ R x.2 y.2

/-- From related states the steps replace equal expressions by equal ones, or leave both. -/
def StepsTogether (R : σ → τ → Prop) (step : Expr → σ → Option (Expr × σ))
    (step' : Expr → τ → Option (Expr × τ)) : Prop :=
  ∀ a b s t, Alike a b → R s t → Option.Rel (Together R) (step a s) (step' b t)

theorem sequence_together {as bs : List Expr} (equal : List.Forall₂ Alike as bs)
    (each : ∀ a ∈ as, ∀ b s t, Alike a b → R s t →
      Together R (a.replace step s) (b.replace step' t)) (states : R s t) :
    List.Forall₂ Alike (sequence (as.map (replace step)) s).1
        (sequence (bs.map (replace step')) t).1 ∧
      R (sequence (as.map (replace step)) s).2 (sequence (bs.map (replace step')) t).2 := by
  induction equal generalizing s t with
  | nil => exact ⟨.nil, states⟩
  | cons head _ ih =>
    obtain ⟨first, others⟩ := List.forall_mem_cons.1 each
    obtain ⟨same, related⟩ := first _ s t head states
    obtain ⟨rest, final⟩ := ih others related
    exact ⟨.cons same rest, final⟩

theorem replace_together (steps : StepsTogether R step step') (equal : Alike a b)
    (states : R s t) : Together R (a.replace step s) (b.replace step' t) := by
  induction a using induct generalizing b s t with
  | step a ih =>
    have parts := sequence_together (children_alike equal)
      (fun c child b s t same related => ih c child same related) states
    have len : (sequence (a.children.map (replace step)) s).1.length = a.children.length := by
      rw [length_sequence, List.length_map]
    rw [replace_eq, replace_eq]
    exact getD_of_rel (steps a b s t equal states)
      ⟨withChildren_alike equal len parts.1, parts.2⟩

theorem replaceAll_together (steps : StepsTogether R step step') {as bs : List Expr}
    (equal : List.Forall₂ Alike as bs) (states : R s t) :
    List.Forall₂ Alike (replaceAll step as s).1 (replaceAll step' bs t).1 ∧
      R (replaceAll step as s).2 (replaceAll step' bs t).2 :=
  sequence_together equal (fun _ _ _ _ _ same related => replace_together steps same related)
    states

end

theorem lookup_alike {pairs pairs' : Substitution}
    (each : List.Forall₂ (fun x y => Alike x.1 y.1 ∧ Alike x.2 y.2) pairs pairs')
    (equal : Alike a b) : Option.Rel Alike (pairs.lookup a) (pairs'.lookup b) := by
  induction each with
  | nil => exact .none
  | @cons x y _ _ first _ ih =>
    have keys : (a == x.1) = (b == y.1) := by
      rw [BEq.congr_left equal, BEq.congr_right first.1]
    rw [List.lookup_cons, List.lookup_cons, keys]
    split
    · exact .some first.2
    · exact ih

theorem substitute_alike {pairs pairs' : Substitution}
    (each : List.Forall₂ (fun x y => Alike x.1 y.1 ∧ Alike x.2 y.2) pairs pairs')
    (equal : Alike a b) : Alike (a.substitute pairs) (b.substitute pairs') := by
  have steps : StepsTogether (fun _ _ => True)
      (fun e (state : Unit) => (pairs.lookup e).map (·, state))
      (fun e (state : Unit) => (pairs'.lookup e).map (·, state)) :=
    fun a b _ _ same _ => map_of_rel (lookup_alike each same) fun _ _ found => ⟨found, trivial⟩
  exact (replace_together steps equal trivial).1

end Expr
end QueryPlan

import QueryPlan.Proofs.Expr.Reading
import QueryPlan.Proofs.Expr.Threading
import QueryPlan.Qualify.Projection

/-!
Window calls moved into columns. Main statements: after extraction no predicate contains a window
call, each reads only what it read before and the new columns, and the new columns compute exactly
the outermost calls. Hence completion adds nothing exactly where predicates without window calls
read only columns there are, and a completed qualify is one of these.
-/
namespace QueryPlan
namespace Qualify

theorem windowStep_none {e : Expr} {s : WindowColumns} (found : windowStep e s = none) :
    e.isWindow = false := by
  unfold windowStep at found
  split at found
  · split at found <;> cases found
  · rename_i other
    exact Bool.eq_false_iff.2 other

theorem windowStep_some {e r : Expr} {s t : WindowColumns}
    (found : windowStep e s = some (r, t)) :
    e.isWindow = true ∧ s.aliases ⊆ t.aliases ∧
      (∀ a ∈ t.aliases, a ∈ s.aliases ∨ a.expr = e) ∧
        ∃ a ∈ t.aliases, (a.expr == e) = true ∧ r = .slot a.slot := by
  unfold windowStep at found
  split at found
  case isFalse => cases found
  case isTrue window =>
    split at found
    case h_1 a known =>
      cases found
      exact ⟨window, fun _ mem => mem, fun _ => Or.inl, a, List.mem_of_find?_eq_some known,
        by simpa using List.find?_some known, rfl⟩
    case h_2 =>
      cases found
      refine ⟨window, List.subset_append_left .., fun a mem => ?_, _,
        List.mem_append_right _ (List.mem_singleton_self _), BEq.rfl, rfl⟩
      rcases List.mem_append.1 mem with old | new
      · exact Or.inl old
      · exact Or.inr (by rw [List.mem_singleton.1 new])

/-- `r` stands for `e` once the calls have been computed into the columns. -/
structure Extracted (columns : WindowColumns) (e r : Expr) : Prop where
  plain : r.containsWindow = false
  reads : ∀ slots, e.Within slots → r.Within (slots ++ columns.aliases.map Alias.slot)
  computed : ∀ part ∈ e.postorder, part.isWindow = true →
    ∃ a ∈ columns.aliases, ∃ call, (a.expr == call) = true ∧ part ∈ call.postorder

theorem Extracted.mono {s t : WindowColumns} {e r : Expr} (grown : s.aliases ⊆ t.aliases)
    (done : Extracted s e r) : Extracted t e r where
  plain := done.plain
  reads slots within := (done.reads slots within).mono fun id mem => by
    rw [List.map_append, List.mem_append] at mem ⊢
    refine mem.imp_right fun new => ?_
    exact List.map_subset _ (List.map_subset _ grown) new
  computed part sub window := by
    obtain ⟨a, mem, call, same, inner⟩ := done.computed part sub window
    exact ⟨a, grown mem, call, same, inner⟩

theorem extracted_of_windowStep {e r : Expr} {s t : WindowColumns}
    (found : windowStep e s = some (r, t)) : Extracted t e r := by
  obtain ⟨_, _, _, a, mem, same, rfl⟩ := windowStep_some found
  refine ⟨rfl, fun slots _ => ?_, fun part sub _ => ⟨a, mem, e, same, sub⟩⟩
  rw [Expr.within_slot, List.map_append, List.mem_append]
  exact Or.inr (List.mem_map_of_mem (List.mem_map_of_mem mem))

theorem extracted_of_children {e : Expr} {cs : List Expr} {t : WindowColumns}
    (other : e.isWindow = false) (parts : List.Forall₂ (Extracted t) e.children cs) :
    Extracted t e (e.withChildren cs) := by
  have children := Expr.children_withChildren parts.length_eq.symm
  refine ⟨?_, fun slots within => ?_, fun part sub window => ?_⟩
  · rw [Expr.containsWindow_eq_false_iff]
    intro part sub
    rw [Expr.mem_postorder_iff, children] at sub
    rcases sub with ⟨c, child, sub⟩ | rfl
    · obtain ⟨_, _, done⟩ := exists_left_of_forall₂ parts child
      exact Expr.containsWindow_eq_false_iff.1 done.plain part sub
    · rw [Expr.isWindow_withChildren, other]
  · obtain ⟨own, below⟩ := Expr.within_iff.1 within
    rw [Expr.within_iff, Expr.ownSlots_withChildren, children]
    constructor
    · intro s mem
      rw [List.map_append]
      exact List.mem_append_left _ (own s mem)
    · intro c child
      obtain ⟨before, found, done⟩ := exists_left_of_forall₂ parts child
      exact done.reads slots (below before found)
  · rcases Expr.mem_postorder_iff.1 sub with ⟨c, child, sub⟩ | rfl
    · obtain ⟨_, _, done⟩ := exists_right_of_forall₂ parts child
      exact done.computed part sub window
    · rw [other] at window
      cases window

theorem extracted_replaceAll (es : List Expr) (s : WindowColumns) :
    s.aliases ⊆ (Expr.replaceAll windowStep es s).2.aliases ∧
      List.Forall₂ (Extracted (Expr.replaceAll windowStep es s).2) es
        (Expr.replaceAll windowStep es s).1 := by
  apply Expr.replaceAll_grows (R := fun s t : WindowColumns => s.aliases ⊆ t.aliases)
  · exact fun s => List.Subset.refl _
  · exact fun s t u first second => List.Subset.trans first second
  · exact fun s t e r grown done => done.mono grown
  · exact fun s e r t found => ⟨(windowStep_some found).2.1, extracted_of_windowStep found⟩
  · exact fun s e cs t found parts => extracted_of_children (windowStep_none found) parts

theorem occurs_of_mem_aliases (es : List Expr) (s : WindowColumns) :
    ∀ a ∈ (Expr.replaceAll windowStep es s).2.aliases, a ∈ s.aliases ∨
      ∃ e ∈ es, a.expr.isWindow = true ∧ a.expr ∈ e.postorder := by
  apply Expr.Threaded.origin
  apply Expr.replaceAll_induct
  · intro s e r t found a mem
    obtain ⟨window, _, origin, _⟩ := windowStep_some found
    rcases origin a mem with old | rfl
    · exact Or.inl old
    · exact Or.inr ⟨window, Expr.mem_postorder_self _⟩
  · intro s e cs t found run a mem
    refine (run.origin a mem).imp_right ?_
    rintro ⟨c, child, window, sub⟩
    exact ⟨window, Expr.mem_postorder_of_child child sub⟩

theorem stable_of_plain {e : Expr} (plain : e.containsWindow = false) (s : WindowColumns) :
    Expr.Stable windowStep s e := by
  intro part sub r found
  have window := (windowStep_some found).1
  rw [Expr.containsWindow_eq_false_iff.1 plain part sub] at window
  cases window

section
variable {predicates : Conjuncts} {columns : List Slot}

theorem mem_absent {s : Slot} (mem : s ∈ (absent predicates (.ofList columns)).toList) :
    (∃ p ∈ predicates.toList, s ∈ p.inputSlots.toList) ∧ s.id ∉ columns.map Slot.id := by
  obtain ⟨read, missing⟩ := List.mem_filter.1 (SortedSet.mem_of_mem_ofList mem)
  refine ⟨List.mem_flatMap.1 read, fun found => ?_⟩
  rw [contains_slot_iff.2 (id_mem_ofList_iff.2 found)] at missing
  cases missing

theorem within_absent {p : Expr} (mem : p ∈ predicates.toList) :
    p.Within (columns ++ (absent predicates (.ofList columns)).toList) := by
  intro s read
  rw [List.map_append, List.mem_append]
  by_cases there : s.id ∈ columns.map Slot.id
  · exact Or.inl there
  · refine Or.inr (id_mem_ofList_iff.2 (List.mem_map_of_mem (List.mem_filter.2 ⟨?_, ?_⟩)))
    · exact List.mem_flatMap.2 ⟨p, mem, read⟩
    · rw [← id_mem_ofList_iff, ← contains_slot_iff] at there
      simpa using there

theorem isEmpty_absent_iff :
    (absent predicates (.ofList columns)).isEmpty = true ↔
      ∀ p ∈ predicates.toList, p.Within columns := by
  constructor
  · intro empty p mem
    have within := @within_absent _ columns _ mem
    rwa [List.isEmpty_iff.1 empty, List.append_nil] at within
  · intro within
    refine List.isEmpty_iff.2 (List.eq_nil_iff_forall_not_mem.2 fun s mem => ?_)
    obtain ⟨⟨p, stated, read⟩, missing⟩ := mem_absent mem
    exact missing (within p stated s read)

end

theorem subset_withColumns (projections : List NamedExpr) (slots : List Slot) :
    projections ⊆ withColumns projections slots := by
  induction slots generalizing projections with
  | nil => exact List.Subset.refl _
  | cons s slots ih =>
    rw [withColumns, List.foldl_cons]
    split
    · exact ih projections
    · exact List.Subset.trans (List.subset_append_left ..) (ih _)

theorem withColumns_eq {projections : List NamedExpr} {slots : List Slot}
    (distinct : (slots.map Slot.id).Nodup) :
    withColumns projections slots = projections ++
      (slots.filter fun s => !projections.any fun p => p.slot == s).map NamedExpr.column := by
  induction slots generalizing projections with
  | nil => simp [withColumns]
  | cons s slots ih =>
    obtain ⟨new, rest⟩ := List.nodup_cons.1 distinct
    rw [withColumns, List.foldl_cons, List.filter_cons]
    cases there : projections.any fun p => p.slot == s with
    | true => exact ih rest
    | false =>
      -- Passing `s` through makes none of the later columns one that is there.
      have others : (slots.filter fun t => !(projections ++ [NamedExpr.column s]).any
          fun p => p.slot == t) = slots.filter fun t => !projections.any fun p => p.slot == t := by
        apply List.filter_congr
        intro t mem
        have differ : ((NamedExpr.column s).slot == t) = false := by
          rw [Bool.eq_false_iff]
          exact fun same => new (List.mem_map.2 ⟨t, mem, (Slot.beq_iff.1 same).symm⟩)
        rw [List.any_append, List.any_cons, differ, List.any_nil, Bool.or_false, Bool.or_false]
      have step : withColumns (projections ++ [NamedExpr.column s]) slots = _ := ih rest
      rw [others] at step
      simpa [withColumns] using step

def extraction (predicates : Conjuncts) (supply : Supply) : List Expr × WindowColumns :=
  Expr.replaceAll windowStep predicates.toList ⟨[], supply⟩

section
variable {predicates : Conjuncts} {columns : List Slot} {supply : Supply}

theorem completion?_eq :
    completion? predicates (.ofList columns) supply =
      if (extraction predicates supply).2.aliases.isEmpty &&
          (absent predicates (.ofList columns)).isEmpty then none
      else some ⟨.extend .empty (extraction predicates supply).1,
        (extraction predicates supply).2.aliases.map .aliased ++
          (absent predicates (.ofList columns)).toList.map .column,
        (extraction predicates supply).2.supply⟩ := rfl

theorem aliases_eq_nil_iff :
    (extraction predicates supply).2.aliases = [] ↔
      ∀ p ∈ predicates.toList, p.containsWindow = false := by
  constructor
  · intro none p mem
    obtain ⟨_, results⟩ := extracted_replaceAll predicates.toList ⟨[], supply⟩
    obtain ⟨_, _, done⟩ := exists_right_of_forall₂ results mem
    rw [Expr.containsWindow_eq_false_iff]
    intro part sub
    rw [Bool.eq_false_iff]
    intro window
    obtain ⟨a, found, _⟩ := done.computed part sub window
    rw [extraction] at none
    rw [none] at found
    cases found
  · intro plain
    rw [extraction, Expr.replaceAll_stable fun p mem => stable_of_plain (plain p mem) _]

theorem next_le_windowStep {e r : Expr} {s t : WindowColumns}
    (found : windowStep e s = some (r, t)) : s.supply.next ≤ t.supply.next := by
  unfold windowStep at found
  split at found
  · split at found <;> cases found
    · exact Nat.le_refl _
    · exact Nat.le_succ _
  · cases found

theorem next_le_extraction : supply.next ≤ (extraction predicates supply).2.supply.next := by
  apply Expr.state_replaceAll (R := fun s t : WindowColumns => s.supply.next ≤ t.supply.next)
    (s := ⟨[], supply⟩)
  · exact fun s => Nat.le_refl _
  · exact fun s t u first second => Nat.le_trans first second
  · exact fun s e r t found => next_le_windowStep found

/-- Nothing is added exactly where no predicate contains a window call or reads another column. -/
theorem completion?_eq_none_iff :
    completion? predicates (.ofList columns) supply = none ↔
      ∀ p ∈ predicates.toList, p.containsWindow = false ∧ p.Within columns := by
  simp only [forall_and]
  rw [completion?_eq, ite_eq_left_iff, Bool.and_eq_true, List.isEmpty_iff, aliases_eq_nil_iff,
    isEmpty_absent_iff]
  simp

variable {completion : Completion}

theorem completion?_some
    (found : completion? predicates (.ofList columns) supply = some completion) :
    completion.predicates = .extend .empty (extraction predicates supply).1 ∧
      completion.columns = (extraction predicates supply).2.aliases.map .aliased ++
        (absent predicates (.ofList columns)).toList.map .column := by
  rw [completion?_eq] at found
  split at found
  · cases found
  · cases found
    exact ⟨rfl, rfl⟩

theorem next_le_completion?
    (found : completion? predicates (.ofList columns) supply = some completion) :
    supply.next ≤ completion.supply.next := by
  rw [completion?_eq] at found
  split at found
  · cases found
  · cases found
    exact next_le_extraction

theorem slots_of_completion?
    (found : completion? predicates (.ofList columns) supply = some completion) :
    completion.columns.map NamedExpr.slot =
      (extraction predicates supply).2.aliases.map Alias.slot ++
        (absent predicates (.ofList columns)).toList := by
  rw [(completion?_some found).2]
  simp [NamedExpr.slot, Function.comp_def]

theorem plain_of_completion?
    (found : completion? predicates (.ofList columns) supply = some completion) {q : Expr}
    (mem : q ∈ completion.predicates.toList) :
    q.containsWindow = false ∧ q.Within (columns ++ completion.columns.map NamedExpr.slot) := by
  rw [(completion?_some found).1] at mem
  rcases SortedSet.mem_of_mem_extend mem with none | mem
  · cases none
  · obtain ⟨_, results⟩ := extracted_replaceAll predicates.toList ⟨[], supply⟩
    obtain ⟨p, stated, done⟩ := exists_left_of_forall₂ results mem
    have reads := done.reads _ (@within_absent _ columns _ stated)
    refine ⟨done.plain, reads.mono fun id there => ?_⟩
    rw [slots_of_completion? found]
    simp only [List.map_append, List.mem_append] at there ⊢
    rcases there with (known | missing) | new
    · exact Or.inl known
    · exact Or.inr (Or.inr missing)
    · exact Or.inr (Or.inl new)

theorem completion?_again
    (found : completion? predicates (.ofList columns) supply = some completion)
    (wider : List Slot) (next : Supply)
    (sub : ∀ id ∈ (columns ++ completion.columns.map NamedExpr.slot).map Slot.id,
      id ∈ wider.map Slot.id) :
    completion? completion.predicates (.ofList wider) next = none := by
  rw [completion?_eq_none_iff]
  intro q mem
  obtain ⟨plain, within⟩ := plain_of_completion? found mem
  exact ⟨plain, within.mono sub⟩

theorem completion?_wider {projections wider : List NamedExpr}
    (found : completion? predicates (.ofList (projections.map NamedExpr.slot)) supply =
      some completion) (sub : projections ++ completion.columns ⊆ wider) (next : Supply) :
    completion? completion.predicates (.ofList (wider.map NamedExpr.slot)) next = none := by
  refine completion?_again found (wider.map NamedExpr.slot) next fun id mem => ?_
  rw [← List.map_append] at mem
  exact List.map_subset _ (List.map_subset _ sub) mem

end

theorem exists_frame {built : Option (Frame × Supply)} {input fragment : Plan} {next : Supply}
    (completed : (built.map fun (frame, supply) => (frame input, supply)) = some (fragment, next)) :
    ∃ frame, built = some (frame, next) ∧ frame input = fragment := by
  obtain ⟨⟨frame, t⟩, found, same⟩ := Option.map_eq_some_iff.1 completed
  cases same
  exact ⟨frame, found, rfl⟩

section
variable {predicates : Conjuncts} {projections : List NamedExpr} {supply : Supply}

theorem projectFrame?_none (distinct : Bool)
    (nothing : completion? predicates (.ofList (projections.map NamedExpr.slot)) supply = none) :
    projectFrame? predicates projections distinct supply = none := by
  rw [projectFrame?, nothing]
  rfl

theorem havingProjectFrame?_none (conditions : Conjuncts) (distinct : Bool)
    (nothing : completion? predicates (.ofList (projections.map NamedExpr.slot)) supply = none) :
    havingProjectFrame? predicates conditions projections distinct supply = none := by
  rw [havingProjectFrame?, nothing]
  rfl

variable {completion : Completion}

theorem projectFrame?_some (distinct : Bool)
    (found : completion? predicates (.ofList (projections.map NamedExpr.slot)) supply =
      some completion) :
    projectFrame? predicates projections distinct supply =
      some (fun input => ((input.project (projections ++ completion.columns) false).qualify
        completion.predicates).projectSlots (projections.map NamedExpr.slot) distinct,
          completion.supply) := by
  rw [projectFrame?, found]
  rfl

theorem havingProjectFrame?_some (conditions : Conjuncts)
    (found : completion? predicates (.ofList (projections.map NamedExpr.slot)) supply =
      some completion) :
    havingProjectFrame? predicates conditions projections false supply =
      some (fun input => (((input.project (projections ++ completion.columns) false).qualify
        completion.predicates).having conditions).projectSlots
          (projections.map NamedExpr.slot) false, completion.supply) := by
  rw [havingProjectFrame?, found]
  rfl

def missingColumns (conditions : Conjuncts) (projections : List NamedExpr) : List Slot :=
  (absent conditions (.ofList (projections.map NamedExpr.slot))).toList

theorem havingProjectFrame?_some_distinct (conditions : Conjuncts)
    (found : completion? predicates (.ofList (projections.map NamedExpr.slot)) supply =
      some completion) :
    havingProjectFrame? predicates conditions projections true supply =
      some (fun input => ((((input.project (withColumns (projections ++ completion.columns)
        (missingColumns conditions projections)) false).qualify completion.predicates).projectSlots
          (projections.map NamedExpr.slot ++ missingColumns conditions projections) false).having
            conditions).projectSlots (projections.map NamedExpr.slot) true, completion.supply) := by
  rw [havingProjectFrame?, found]
  rfl

def unmetColumns (conditions : Conjuncts) (projections : List NamedExpr)
    (completion : Completion) : List Slot :=
  (missingColumns conditions projections).filter fun s =>
    !(projections ++ completion.columns).any fun p => p.slot == s

def havingFrame (projections added : List NamedExpr) (rewritten conditions : Conjuncts) : Frame :=
  fun input => (((input.project (projections ++ added) false).qualify rewritten).having
    conditions).projectSlots (projections.map NamedExpr.slot) false

def distinctHavingFrame (projections added : List NamedExpr) (kept : List Slot)
    (rewritten conditions : Conjuncts) : Frame :=
  fun input => ((((input.project (projections ++ added) false).qualify rewritten).projectSlots
    (projections.map NamedExpr.slot ++ kept) false).having conditions).projectSlots
      (projections.map NamedExpr.slot) true

theorem havingProjectFrame?_cases {conditions : Conjuncts} {distinct : Bool} {frame : Frame}
    {next : Supply}
    (found : havingProjectFrame? predicates conditions projections distinct supply =
      some (frame, next)) :
    ∃ completion, completion? predicates (.ofList (projections.map NamedExpr.slot)) supply =
        some completion ∧
      ((distinct = false ∧
          frame = havingFrame projections completion.columns completion.predicates conditions) ∨
        (distinct = true ∧ frame = distinctHavingFrame projections
          (completion.columns ++ (unmetColumns conditions projections completion).map .column)
          (missingColumns conditions projections) completion.predicates conditions)) := by
  obtain ⟨completion, missing, _⟩ := Option.bind_eq_some_iff.1 found
  refine ⟨completion, missing, ?_⟩
  cases distinct with
  | false =>
    rw [havingProjectFrame?_some conditions missing] at found
    cases found
    exact Or.inl ⟨rfl, rfl⟩
  | true =>
    rw [havingProjectFrame?_some_distinct conditions missing, missingColumns,
      withColumns_eq (nodup_ids _), List.append_assoc] at found
    cases found
    exact Or.inr ⟨rfl, rfl⟩

end

end Qualify
end QueryPlan

import Mathlib.Data.List.Induction
import QueryPlan.Proofs.Expr.Expansion
import QueryPlan.Proofs.Qualify.Scope

/-!
Extraction of window calls loses nothing. Main statement: the columns added to a projection compute
the distinct outermost window calls in order of first occurrence, and putting the calls back in the
place of their columns gives the predicates there were, none of which has been merged with another.
-/
namespace QueryPlan

theorem loop_eraseDups_cons [BEq α] (x : α) (xs seen : List α) :
    List.eraseDupsBy.loop (· == ·) (x :: xs) seen =
      List.eraseDupsBy.loop (· == ·) xs (if seen.any (x == ·) then seen else x :: seen) := by
  rw [List.eraseDupsBy.loop]
  split <;> rename_i known <;> simp [known]

theorem loop_eraseDups_concat [BEq α] (xs : List α) (x : α) (seen : List α) :
    List.eraseDupsBy.loop (· == ·) (xs ++ [x]) seen =
      if (List.eraseDupsBy.loop (· == ·) xs seen).any (x == ·) then
        List.eraseDupsBy.loop (· == ·) xs seen
      else List.eraseDupsBy.loop (· == ·) xs seen ++ [x] := by
  induction xs generalizing seen with
  | nil =>
    rw [List.nil_append, loop_eraseDups_cons]
    simp only [List.eraseDupsBy.loop, List.any_reverse]
    split
    · rfl
    · exact List.reverse_cons
  | cons y ys ih => rw [List.cons_append, loop_eraseDups_cons, loop_eraseDups_cons, ih]

theorem eraseDups_concat [BEq α] (xs : List α) (x : α) :
    (xs ++ [x]).eraseDups =
      if xs.eraseDups.any (x == ·) then xs.eraseDups else xs.eraseDups ++ [x] :=
  loop_eraseDups_concat xs x []

namespace Expr

/-- The window calls that are part of no other, from left to right. -/
def outermostWindows (e : Expr) : List Expr :=
  e.fold fun e parts => if e.isWindow then [e] else parts.flatten

theorem outermostWindows_eq (e : Expr) :
    e.outermostWindows = if e.isWindow then [e] else e.children.flatMap outermostWindows := by
  rw [outermostWindows, fold_eq]
  rfl

end Expr

namespace Qualify

def WindowColumns.record (s : WindowColumns) (call : Expr) : WindowColumns :=
  if s.aliases.any fun a => a.expr == call then s
  else ⟨s.aliases ++ [(Alias.freshUnnamed call s.supply).1], (Alias.freshUnnamed call s.supply).2⟩

theorem record_of_windowStep {e r : Expr} {s t : WindowColumns}
    (found : windowStep e s = some (r, t)) : t = s.record e := by
  unfold windowStep at found
  split at found
  case isFalse => cases found
  case isTrue =>
    rw [WindowColumns.record]
    split at found
    case h_1 a known =>
      cases found
      rw [if_pos (List.any_eq_true.2 ⟨a, List.mem_of_find?_eq_some known, List.find?_some known⟩)]
    case h_2 unknown =>
      cases found
      have new : ¬ (s.aliases.any fun a => a.expr == e) = true := by simpa using unknown
      rw [if_neg new]
      rfl

theorem columns_replaceAll (es : List Expr) (s : WindowColumns) :
    (Expr.replaceAll windowStep es s).2 =
      (es.flatMap Expr.outermostWindows).foldl WindowColumns.record s := by
  apply Expr.Threaded.foldl
  apply Expr.replaceAll_induct
  · intro s e r t found
    rw [Expr.outermostWindows_eq, if_pos (windowStep_some found).1]
    exact record_of_windowStep found
  · intro s e cs t found run
    rw [Expr.outermostWindows_eq, if_neg (Bool.eq_false_iff.1 (windowStep_none found))]
    exact run.foldl

structure Recorded (calls : List Expr) (first : SlotId) (s : WindowColumns) : Prop where
  distinct : s.aliases.map Alias.expr = calls.eraseDups
  consecutive : aliasIds s.aliases = List.range' first s.aliases.length
  next : s.supply.next = first + s.aliases.length

theorem Recorded.record {calls : List Expr} {first : SlotId} {s : WindowColumns}
    (recorded : Recorded calls first s) (call : Expr) :
    Recorded (calls ++ [call]) first (s.record call) := by
  have known : (calls.eraseDups.any (call == ·)) = s.aliases.any fun a => a.expr == call := by
    rw [← recorded.distinct, List.any_map]
    exact List.any_congr rfl fun a => BEq.comm
  rw [WindowColumns.record]
  constructor
  · rw [eraseDups_concat, known]
    split
    · exact recorded.distinct
    · rw [List.map_append, recorded.distinct]
      rfl
  · split
    · exact recorded.consecutive
    · rw [aliasIds, List.map_append, List.length_append, List.length_singleton,
        List.range'_concat, Nat.one_mul, ← recorded.next]
      exact congrArg (· ++ _) recorded.consecutive
  · split
    · exact recorded.next
    · rw [List.length_append, List.length_singleton, ← Nat.add_assoc, ← recorded.next]
      rfl

theorem recorded_foldl (calls : List Expr) (supply : Supply) :
    Recorded calls supply.next (calls.foldl WindowColumns.record ⟨[], supply⟩) := by
  induction calls using List.reverseRecOn with
  | nil => exact ⟨rfl, rfl, rfl⟩
  | append_singleton calls call ih =>
    rw [List.foldl_append]
    exact ih.record call

theorem recorded_extraction (predicates : Conjuncts) (supply : Supply) :
    Recorded (predicates.toList.flatMap Expr.outermostWindows) supply.next
      (extraction predicates supply).2 := by
  rw [extraction, columns_replaceAll]
  exact recorded_foldl _ supply

theorem restored_replaceAll {first : SlotId} {aliases : List Alias} {es : List Expr}
    {s : WindowColumns} (distinct : (aliasIds aliases).Nodup)
    (fresh : ∀ id ∈ aliasIds aliases, first ≤ id) (above : ∀ e ∈ es, e.ReadsOnly (· < first))
    (all : (Expr.replaceAll windowStep es s).2.aliases ⊆ aliases) :
    List.Forall₂ (fun e r => (r.expand aliases == e) = true) es
      (Expr.replaceAll windowStep es s).1 := by
  have apart {e : Expr} (below : e.ReadsOnly (· < first)) :
      e.ReadsOnly (· ∉ aliasIds aliases) :=
    fun t read mem => Nat.not_le_of_lt (below t read) (fresh t.id mem)
  have same : List.Forall₂ (fun e r => (Expr.replaceAll windowStep es s).2.aliases ⊆ aliases →
      (r.expand aliases == e.expand aliases) = true) es (Expr.replaceAll windowStep es s).1 := by
    refine (Expr.replaceAll_keeps (I := fun _ => True) (A := fun e => e.ReadsOnly (· < first))
      (R := fun s t : WindowColumns => s.aliases ⊆ t.aliases)
      (Q := fun t e r => t.aliases ⊆ aliases → (r.expand aliases == e.expand aliases) = true)
      ?_ ?_ ?_ ?_ ?_ ?_ trivial above).2.2
    · exact fun s => List.Subset.refl _
    · exact fun s t u first second => List.Subset.trans first second
    · exact fun s t e r grown same all => same (List.Subset.trans grown all)
    · intro s e r t found _ below
      obtain ⟨_, grown, _, a, mem, computes, rfl⟩ := windowStep_some found
      exact ⟨trivial, grown, fun all =>
        Expr.expand_column_beq distinct (all mem) computes (apart below)⟩
    · intro s e _ _ below c child
      exact below.of_part (Expr.mem_postorder_of_child child (Expr.mem_postorder_self c))
    · intro s e cs t _ _ _ parts all
      exact Expr.expand_withChildren_beq (parts.imp fun _ _ same => same all)
  refine ((List.forall₂_and_left _ _).2 ⟨above, same⟩).imp fun e r ⟨below, same⟩ => ?_
  have result := same all
  rwa [Expr.expand_eq_self (apart below)] at result

/-- The predicates with their outermost window calls moved into columns, numbered from `first`. -/
structure Extracts (predicates rewritten : Conjuncts) (aliases : List Alias) (first : SlotId) :
    Prop where
  restored : (SortedSet.ofList (rewritten.toList.map (Expr.expand aliases)) == predicates) = true
  size_eq : rewritten.size = predicates.size
  plain : ∀ q ∈ rewritten.toList, q.containsWindow = false
  calls : aliases.map Alias.expr =
    (predicates.toList.flatMap Expr.outermostWindows).eraseDups
  consecutive : aliasIds aliases = List.range' first aliases.length

section
variable {predicates : Conjuncts} {supply : Supply}

theorem extracts_extraction (above : ∀ p ∈ predicates.toList, p.ReadsOnly (· < supply.next)) :
    Extracts predicates (.extend .empty (extraction predicates supply).1)
      (extraction predicates supply).2.aliases supply.next := by
  have recorded := recorded_extraction predicates supply
  have pairs : List.Forall₂
      (fun e r => (r.expand (extraction predicates supply).2.aliases == e) = true)
      predicates.toList (extraction predicates supply).1 := by
    refine restored_replaceAll ?_ ?_ above (List.Subset.refl _)
    · rw [recorded.consecutive]
      exact List.nodup_range'
    · rw [recorded.consecutive]
      exact fun id mem => (List.mem_range'_1.1 mem).1
  have collects (x : Expr) := SortedSet.contains_extend .empty (extraction predicates supply).1 x
  have restored : (SortedSet.ofList ((SortedSet.extend .empty
      (extraction predicates supply).1).toList.map
        (Expr.expand (extraction predicates supply).2.aliases)) == predicates) = true := by
    refine SortedSet.beq_of_contains fun x => ?_
    rw [Bool.eq_iff_iff, Expr.contains_expanded_iff collects pairs, SortedSet.contains_iff]
  refine ⟨restored, Nat.le_antisymm ?_ ?_, fun q mem => ?_, recorded.distinct,
    recorded.consecutive⟩
  · have fewer := SortedSet.size_extend_le .empty (extraction predicates supply).1
    rw [← pairs.length_eq] at fewer
    exact Nat.le_trans fewer (Nat.le_of_eq (Nat.zero_add _))
  · -- Merged predicates could not expand to as many as there were.
    rw [← SortedSet.size_eq_of_beq restored]
    exact Nat.le_trans (SortedSet.size_ofList_le _) (Nat.le_of_eq (List.length_map _))
  · obtain ⟨_, results⟩ := extracted_replaceAll predicates.toList ⟨[], supply⟩
    have found := (SortedSet.mem_of_mem_extend mem).resolve_left List.not_mem_nil
    obtain ⟨_, _, done⟩ := exists_left_of_forall₂ results found
    exact done.plain

end

section
variable {input fragment : Plan} {projections : List NamedExpr} {distinct : Bool}
  {predicates conditions : Conjuncts} {supply next : Supply} {completion : Completion}

theorem mem_projectFrame? {frame : Frame}
    (found : projectFrame? predicates projections distinct supply = some (frame, next)) :
    ∃ completion, completion? predicates (.ofList (projections.map NamedExpr.slot)) supply =
        some completion ∧
      (input.project (projections ++ completion.columns) false).qualify completion.predicates ∈
        (frame input).postorder := by
  obtain ⟨completion, missing, built⟩ := Option.bind_eq_some_iff.1 found
  cases built
  exact ⟨completion, missing, List.mem_append_left _ (Plan.mem_postorder_self _)⟩

theorem mem_havingProjectFrame? {frame : Frame}
    (found : havingProjectFrame? predicates conditions projections distinct supply =
      some (frame, next)) :
    ∃ completion, ∃ passed : List Slot,
      completion? predicates (.ofList (projections.map NamedExpr.slot)) supply = some completion ∧
      (input.project (projections ++ (completion.columns ++ passed.map .column)) false).qualify
        completion.predicates ∈ (frame input).postorder := by
  obtain ⟨completion, missing, ⟨_, rfl⟩ | ⟨_, rfl⟩⟩ := havingProjectFrame?_cases found
  · refine ⟨completion, [], missing, ?_⟩
    rw [List.map_nil, List.append_nil]
    exact List.mem_append_left _ (List.mem_append_left _ (Plan.mem_postorder_self _))
  · exact ⟨completion, unmetColumns conditions projections completion, missing,
      List.mem_append_left _ (List.mem_append_left _ (List.mem_append_left _
        (Plan.mem_postorder_self _)))⟩

theorem extracts_completion?
    (above : ∀ p ∈ predicates.toList, p.ReadsOnly (· < supply.next))
    (found : completion? predicates (.ofList (projections.map NamedExpr.slot)) supply =
      some completion) :
    ∃ aliases, ∃ passed : List Slot,
      completion.columns = aliases.map .aliased ++ passed.map .column ∧
        Extracts predicates completion.predicates aliases supply.next := by
  obtain ⟨rewritten, added⟩ := completion?_some found
  exact ⟨_, _, added, rewritten ▸ extracts_extraction above⟩

/-- Whether or not a having stands in between: the qualify of the completed plan stands on a
projection that starts with what the projection had and the columns of the window calls. -/
theorem completed_projection_extracts
    (above : ∀ p ∈ predicates.toList, p.ReadsOnly (· < supply.next))
    (completed : (input.project projections distinct).completeProject? predicates supply =
        some (fragment, next) ∨
      ∃ conditions, ((input.project projections distinct).having conditions).completeHavingProject?
        predicates supply = some (fragment, next)) :
    ∃ rewritten aliases, ∃ passed : List Slot,
      (input.project (projections ++ aliases.map .aliased ++ passed.map .column) false).qualify
          rewritten ∈ fragment.postorder ∧
        Extracts predicates rewritten aliases supply.next := by
  rcases completed with completed | ⟨conditions, completed⟩
  · obtain ⟨frame, found, rfl⟩ := exists_frame completed
    obtain ⟨completion, missing, node⟩ := mem_projectFrame? found
    obtain ⟨aliases, passed, added, extracts⟩ := extracts_completion? above missing
    rw [added, ← List.append_assoc] at node
    exact ⟨_, aliases, passed, node, extracts⟩
  · obtain ⟨frame, found, rfl⟩ := exists_frame completed
    obtain ⟨completion, more, missing, node⟩ := mem_havingProjectFrame? found
    obtain ⟨aliases, passed, added, extracts⟩ := extracts_completion? above missing
    rw [added, List.append_assoc (aliases.map _), ← List.map_append, ← List.append_assoc] at node
    exact ⟨_, aliases, passed ++ more, node, extracts⟩

end

namespace Shop

def numbered (column : Slot) : Expr := .window .rowNumber [] [] [.slot column]

def ranked : Conjuncts :=
  .ofList [.binary .gt (numbered tax) (.literal (.integer 1)),
    .binary .lt (numbered ⟨tax.id, "vat"⟩) (.literal (.integer 9)),
    .binary .eq (.window .rank [] [.slot tax] [numbered price]) (numbered price)]

def taxed : Conjuncts := .ofList [.binary .gt (.slot total) (.slot tax)]

end Shop

open Shop in
theorem completed_projection_extracts_ranked :
    (∀ p ∈ ranked.toList, p.ReadsOnly (· < 4)) ∧
      ∃ fragment next, ((orders.project totals true).having taxed).completeHavingProject? ranked
          ⟨4⟩ = some (fragment, next) ∧
        ∃ rewritten aliases, ∃ passed : List Slot,
          (orders.project (totals ++ aliases.map .aliased ++ passed.map .column) false).qualify
              rewritten ∈ fragment.postorder ∧
            Extracts ranked rewritten aliases 4 := by
  have above : ∀ p ∈ ranked.toList, p.ReadsOnly (· < (Supply.mk 4).next) := by decide
  exact ⟨above, _, _, rfl, completed_projection_extracts above (Or.inr ⟨taxed, rfl⟩)⟩

end Qualify
end QueryPlan

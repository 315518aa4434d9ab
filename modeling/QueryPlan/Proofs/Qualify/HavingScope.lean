import QueryPlan.Proofs.Qualify.Extraction
import QueryPlan.Proofs.Qualify.Schema

/-!
Completed projections beneath a having. Main statement: where window calls read only the
projection's input, what completion builds reads only columns that are there, and neither the
projection below the qualify nor the one between the qualify and the having gains a column twice.
-/
namespace QueryPlan
namespace Qualify

/-- The added columns differ from those that are there and from one another. -/
def AddsColumns (there added : List Slot) : Prop :=
  (added.map Slot.id).Nodup ∧ ∀ s ∈ added, s.id ∉ there.map Slot.id

theorem AddsColumns.append {there first second : List Slot} (adds : AddsColumns there first)
    (adds' : AddsColumns (there ++ first) second) : AddsColumns there (first ++ second) := by
  have apart : ∀ s ∈ second, s.id ∉ there.map Slot.id ∧ s.id ∉ first.map Slot.id := by
    intro s mem
    have new := adds'.2 s mem
    rwa [List.map_append, List.mem_append, not_or] at new
  constructor
  · rw [List.map_append, List.nodup_append]
    refine ⟨adds.1, adds'.1, fun id early later mem same => ?_⟩
    obtain ⟨s, found, rfl⟩ := List.mem_map.1 mem
    exact (apart s found).2 (same ▸ early)
  · intro s mem
    exact (List.mem_append.1 mem).elim (adds.2 s) fun found => (apart s found).1

section
variable {predicates conditions : Conjuncts} {projections : List NamedExpr} {supply : Supply}
  {completion : Completion}

theorem addsColumns_completion? {there : List Slot}
    (above : ∀ s ∈ there, s.id < supply.next)
    (reads : ∀ p ∈ predicates.toList, p.ReadsOnly (· < supply.next))
    (found : completion? predicates (.ofList there) supply = some completion) :
    AddsColumns there (completion.columns.map NamedExpr.slot) := by
  -- The window columns are numbered from the supply on, and nothing else reaches that far.
  have recorded := recorded_extraction predicates supply
  have ids : ((extraction predicates supply).2.aliases.map Alias.slot).map Slot.id =
      List.range' supply.next (extraction predicates supply).2.aliases.length := by
    rw [List.map_map]
    exact recorded.consecutive
  have fresh : ∀ s ∈ (extraction predicates supply).2.aliases.map Alias.slot,
      supply.next ≤ s.id := by
    intro s mem
    have among := List.mem_map_of_mem (f := Slot.id) mem
    rw [ids] at among
    exact (List.mem_range'_1.1 among).1
  rw [slots_of_completion? found]
  refine AddsColumns.append ⟨ids ▸ List.nodup_range', fun s mem old => ?_⟩
    ⟨nodup_ids _, fun s mem old => ?_⟩
  · obtain ⟨t, known, same⟩ := List.mem_map.1 old
    exact Nat.not_le_of_lt (above t known) (same ▸ fresh s mem)
  · obtain ⟨⟨p, stated, read⟩, elsewhere⟩ := mem_absent mem
    rw [List.map_append, List.mem_append] at old
    obtain ⟨t, computed, same⟩ := List.mem_map.1 (old.resolve_left elsewhere)
    exact Nat.not_le_of_lt (reads p stated s read) (same ▸ fresh t computed)

theorem addsColumns_unmet :
    AddsColumns ((projections ++ completion.columns).map NamedExpr.slot)
      (unmetColumns conditions projections completion) := by
  constructor
  · exact (nodup_ids _).sublist (List.filter_sublist.map Slot.id)
  · intro s mem old
    obtain ⟨c, there, same⟩ := List.mem_map.1 (List.map_map ▸ old)
    have new := (List.mem_filter.1 mem).2
    have produced : ((projections ++ completion.columns).any fun p => p.slot == s) = true :=
      List.any_eq_true.2 ⟨c, there, Slot.beq_iff.2 same⟩
    rw [produced] at new
    cases new

theorem addsColumns_missing :
    AddsColumns (projections.map NamedExpr.slot) (missingColumns conditions projections) :=
  ⟨nodup_ids _, fun _ mem => (mem_absent mem).2⟩

end

section
variable {input fragment : Plan} {projections : List NamedExpr} {distinct : Bool}
  {predicates conditions : Conjuncts} {supply next : Supply} {completion : Completion}

theorem id_mem_slots {s : Slot} {columns more : List NamedExpr}
    (mem : s ∈ columns.map NamedExpr.slot) :
    s.id ∈ ((columns ++ more).map NamedExpr.slot).map Slot.id := by
  rw [List.map_append]
  exact List.mem_map_of_mem (List.mem_append_left _ mem)

theorem scoped_qualify (more : List NamedExpr)
    (entries : ∀ c ∈ projections, c.expr.Within input.output)
    (sources : ∀ p ∈ predicates.toList,
      p.Within (projections.map NamedExpr.slot ++ input.output))
    (calls : CallsWithin predicates input.output) (passed : ∀ c ∈ more, c.expr.Within input.output)
    (found : completion? predicates (.ofList (projections.map NamedExpr.slot)) supply =
      some completion) :
    Plan.Scoped input ((input.project (projections ++ (completion.columns ++ more)) false).qualify
      completion.predicates) := by
  refine .unary (fun q mem => ?_) (.unary (fun e mem => ?_) .base)
  · refine (plain_of_completion? found mem).2.mono fun id there => ?_
    rw [← List.map_append] at there
    obtain ⟨s, kept, rfl⟩ := List.mem_map.1 there
    change s.id ∈ ((projections ++ (completion.columns ++ more)).map NamedExpr.slot).map Slot.id
    rw [← List.append_assoc]
    exact id_mem_slots kept
  · obtain ⟨c, entry, rfl⟩ := List.mem_map.1 mem
    simp only [List.mem_append] at entry
    rcases entry with entry | added | added
    · exact entries c entry
    · exact (columns_within_iff found sources).2 calls c added
    · exact passed c added

theorem id_mem_unmet {s : Slot} (mem : s ∈ missingColumns conditions projections) :
    s.id ∈ ((projections ++ (completion.columns ++
      (unmetColumns conditions projections completion).map NamedExpr.column)).map
        NamedExpr.slot).map Slot.id := by
  rw [← List.append_assoc]
  cases there : (projections ++ completion.columns).any fun p => p.slot == s with
  | true =>
    obtain ⟨c, found, same⟩ := List.any_eq_true.1 there
    exact Slot.beq_iff.1 same ▸ id_mem_slots (List.mem_map_of_mem found)
  | false =>
    have unmet : s ∈ unmetColumns conditions projections completion :=
      List.mem_filter.2 ⟨mem, by rw [there]; rfl⟩
    rw [List.map_append, List.map_append]
    refine List.mem_append_right _ (List.mem_map_of_mem (List.mem_map.2 ?_))
    exact ⟨.column s, List.mem_map_of_mem unmet, rfl⟩

theorem unmetColumns_within
    (reads : ∀ p ∈ conditions.toList, p.Within (projections.map NamedExpr.slot ++ input.output)) :
    ∀ c ∈ (unmetColumns conditions projections completion).map NamedExpr.column,
      c.expr.Within input.output := by
  intro c mem
  obtain ⟨s, unmet, rfl⟩ := List.mem_map.1 mem
  obtain ⟨⟨p, stated, read⟩, elsewhere⟩ := mem_absent (List.mem_filter.1 unmet).1
  have source := reads p stated s read
  rw [List.map_append, List.mem_append] at source
  exact Expr.within_slot.2 (source.resolve_left elsewhere)

theorem scoped_havingFrame {added : List NamedExpr} {rewritten : Conjuncts}
    (reads : ∀ p ∈ conditions.toList, p.Within (projections.map NamedExpr.slot))
    (qualified : Plan.Scoped input ((input.project (projections ++ added) false).qualify
      rewritten)) :
    Plan.Scoped input (havingFrame projections added rewritten conditions input) := by
  refine .unary (readings_projectSlots (fun s => id_mem_slots) false)
    (.unary (fun p mem => (reads p mem).mono fun id there => ?_) qualified)
  obtain ⟨s, produced, rfl⟩ := List.mem_map.1 there
  exact id_mem_slots produced

theorem scoped_distinctHavingFrame {added : List NamedExpr} {rewritten : Conjuncts}
    (there : ∀ s ∈ missingColumns conditions projections,
      s.id ∈ ((projections ++ added).map NamedExpr.slot).map Slot.id)
    (qualified : Plan.Scoped input ((input.project (projections ++ added) false).qualify
      rewritten)) :
    Plan.Scoped input (distinctHavingFrame projections added
      (missingColumns conditions projections) rewritten conditions input) := by
  refine .unary (readings_projectSlots (fun s mem => ?_) true) (.unary (fun p mem => ?_)
    (.unary (readings_projectSlots (fun s mem => ?_) false) qualified))
  · simp only [Plan.output_unary, Operator.output, Plan.output_projectSlots]
    exact List.mem_map_of_mem (List.mem_append_left _ mem)
  · rw [Plan.output_projectSlots]
    exact within_absent mem
  · exact (List.mem_append.1 mem).elim id_mem_slots (there s)

theorem scoped_havingProjectFrame? {frame : Frame}
    (entries : ∀ c ∈ projections, c.expr.Within input.output)
    (reads : ∀ p ∈ conditions.toList,
      p.Within (projections.map NamedExpr.slot ++ if distinct then input.output else []))
    (sources : ∀ p ∈ predicates.toList,
      p.Within (projections.map NamedExpr.slot ++ input.output))
    (calls : CallsWithin predicates input.output)
    (found : havingProjectFrame? predicates conditions projections distinct supply =
      some (frame, next)) : Plan.Scoped input (frame input) := by
  obtain ⟨completion, missing, ⟨rfl, rfl⟩ | ⟨rfl, rfl⟩⟩ := havingProjectFrame?_cases found
  · have qualified := scoped_qualify [] entries sources calls (by simp) missing
    rw [List.append_nil] at qualified
    rw [if_neg Bool.false_ne_true, List.append_nil] at reads
    exact scoped_havingFrame reads qualified
  · rw [if_pos rfl] at reads
    exact scoped_distinctHavingFrame (fun s => id_mem_unmet)
      (scoped_qualify _ entries sources calls (unmetColumns_within reads) missing)

theorem addsColumns_havingProjectFrame? {frame : Frame}
    (above : ∀ s ∈ projections.map NamedExpr.slot, s.id < supply.next)
    (reads : ∀ p ∈ predicates.toList, p.ReadsOnly (· < supply.next))
    (found : havingProjectFrame? predicates conditions projections distinct supply =
      some (frame, next)) :
    ∃ rewritten, ∃ added : List NamedExpr,
      AddsColumns (projections.map NamedExpr.slot) (added.map NamedExpr.slot) ∧
      ((distinct = false ∧ frame = havingFrame projections added rewritten conditions) ∨
        (distinct = true ∧ ∃ kept, AddsColumns (projections.map NamedExpr.slot) kept ∧
          frame = distinctHavingFrame projections added kept rewritten conditions)) := by
  obtain ⟨completion, missing, shape⟩ := havingProjectFrame?_cases found
  have columns := addsColumns_completion? above reads missing
  rcases shape with ⟨plain, rfl⟩ | ⟨distinct, rfl⟩
  · exact ⟨_, _, columns, Or.inl ⟨plain, rfl⟩⟩
  · refine ⟨_, _, ?_, Or.inr ⟨distinct, _, addsColumns_missing, rfl⟩⟩
    have unmet := @addsColumns_unmet conditions projections completion
    have slots : ((unmetColumns conditions projections completion).map NamedExpr.column).map
        NamedExpr.slot = unmetColumns conditions projections completion := by
      simp [NamedExpr.slot, Function.comp_def]
    rw [List.map_append] at unmet
    rw [List.map_append, slots]
    exact columns.append unmet

/-- Where the having reads the projection, or also its input if the projection is distinct, and no
window call reads a column that only the projection has. -/
theorem completed_having_projection_scoped
    (entries : ∀ c ∈ projections, c.expr.Within input.output)
    (reads : ∀ p ∈ conditions.toList,
      p.Within (projections.map NamedExpr.slot ++ if distinct then input.output else []))
    (sources : ∀ p ∈ predicates.toList,
      p.Within (projections.map NamedExpr.slot ++ input.output))
    (calls : ∀ p ∈ predicates.toList, ∀ call ∈ p.postorder, call.isWindow = true →
      call.Within input.output)
    (above : ∀ s ∈ projections.map NamedExpr.slot ++ input.output, s.id < supply.next)
    (completed : ((input.project projections distinct).having conditions).completeHavingProject?
      predicates supply = some (fragment, next)) :
    Plan.Scoped input fragment ∧
      ∃ rewritten, ∃ added : List NamedExpr,
        AddsColumns (projections.map NamedExpr.slot) (added.map NamedExpr.slot) ∧
        ((distinct = false ∧ fragment = havingFrame projections added rewritten conditions input) ∨
          (distinct = true ∧ ∃ kept, AddsColumns (projections.map NamedExpr.slot) kept ∧
            fragment = distinctHavingFrame projections added kept rewritten conditions input)) := by
  obtain ⟨frame, found, rfl⟩ := exists_frame completed
  have below : ∀ p ∈ predicates.toList, p.ReadsOnly (· < supply.next) := by
    intro p mem s read
    obtain ⟨t, there, id⟩ := List.mem_map.1 (sources p mem s read)
    exact id ▸ above t there
  obtain ⟨rewritten, added, columns, shape⟩ := addsColumns_havingProjectFrame?
    (fun s mem => above s (List.mem_append_left _ mem)) below found
  refine ⟨scoped_havingProjectFrame? entries reads sources calls found, rewritten, added, columns,
    shape.imp (fun ⟨plain, built⟩ => ⟨plain, built ▸ rfl⟩) ?_⟩
  exact fun ⟨distinct, kept, others, built⟩ => ⟨distinct, kept, others, built ▸ rfl⟩

end

namespace Shop

def discount : Slot := ⟨4, "discount"⟩

def sales : Plan := .get ⟨"sales", [price, tax, discount]⟩

def sums : List NamedExpr := [.aliased ⟨total, .binary .add (.slot price) (.slot tax)⟩]

def leading : Conjuncts :=
  .ofList [.binary .gt (numbered price) (.literal (.integer 1)),
    .binary .gt (.slot total) (.slot tax)]

def reduced : Conjuncts := .ofList [.binary .gt (.slot tax) (.slot discount)]

end Shop

open Shop in
/-- The tax is missed by both the qualify and the having, the discount by the having alone. -/
theorem completed_having_projection_scoped_sales :
    ∃ fragment next, ((sales.project sums true).having reduced).completeHavingProject? leading
        ⟨5⟩ = some (fragment, next) ∧
      Plan.Scoped sales fragment ∧
        ∃ rewritten, ∃ added : List NamedExpr, ∃ kept,
          AddsColumns [total] (added.map NamedExpr.slot) ∧ AddsColumns [total] kept ∧
            fragment = distinctHavingFrame sums added kept rewritten reduced sales := by
  have entries : ∀ c ∈ sums, c.expr.Within sales.output := by decide
  have reads : ∀ p ∈ reduced.toList,
      p.Within (sums.map NamedExpr.slot ++ if true then sales.output else []) := by decide
  have sources : ∀ p ∈ leading.toList,
      p.Within (sums.map NamedExpr.slot ++ sales.output) := by decide
  have calls : ∀ p ∈ leading.toList, ∀ call ∈ p.postorder, call.isWindow = true →
      call.Within sales.output := by decide
  have above : ∀ s ∈ sums.map NamedExpr.slot ++ sales.output, s.id < (Supply.mk 5).next := by
    decide
  refine ⟨_, _, rfl, ?_⟩
  obtain ⟨inScope, rewritten, added, columns, ⟨plain, _⟩ | ⟨_, kept, others, built⟩⟩ :=
    completed_having_projection_scoped entries reads sources calls above rfl
  · cases plain
  · exact ⟨inScope, rewritten, added, kept, columns, others, built⟩

end Qualify
end QueryPlan

import QueryPlan.Plan.Printer
import QueryPlan.Proofs.Expr.Printing
import QueryPlan.Proofs.Plan.Parts

/-!
The text of a plan and what can be read off it. Main statement: where no name has a line break in
it, the lines of the text are the headers of the nodes in preorder, each after two blanks for every
operator above its node; and two texts are the same exactly when the plans have the same shape, with
operators of one kind under the same header at each place.
-/
namespace QueryPlan

open Text

theorem oneLine_bracketList {render : α → String} {items : List α}
    (each : ∀ x ∈ items, OneLine (render x)) : OneLine (bracketList (items.map render)) :=
  (OneLine.append (by decide) (oneLine_commaList (List.forall_mem_map.2 each))).append (by decide)

theorem oneLine_columns {columns : List NamedExpr}
    (slots : ∀ s ∈ columns.map NamedExpr.slot, OneLine s.name)
    (read : ∀ e ∈ columns.map NamedExpr.expr, ∀ s ∈ e.slots, OneLine s.name) :
    OneLine (bracketList (columns.map NamedExpr.render)) :=
  oneLine_bracketList fun _ mem =>
    NamedExpr.oneLine_render (slots _ (List.mem_map_of_mem mem)) (read _ (List.mem_map_of_mem mem))

theorem oneLine_expressions {es : List Expr} (read : ∀ e ∈ es, ∀ s ∈ e.slots, OneLine s.name) :
    OneLine (bracketList (es.map Expr.render)) :=
  oneLine_bracketList fun e mem => e.oneLine_render (read e mem)

theorem Relation.oneLine_header {r : Relation} (name : OneLine r.name)
    (slots : ∀ s ∈ r.output, OneLine s.name) : OneLine r.header :=
  ((OneLine.append (by decide) name).append (by decide)).append
    (oneLine_bracketList fun s mem => s.oneLine_render (slots s mem))

theorem Operator.oneLine_header {o : Operator}
    (names : ∀ s ∈ (Node.operator o).slots, OneLine s.name) : OneLine o.header := by
  rw [Node.slots, List.forall_mem_append, List.forall_mem_flatMap] at names
  obtain ⟨slots, read⟩ := names
  cases o with
  | project projections distinct =>
    have mark : OneLine (if distinct then " distinct" else "") := by cases distinct <;> decide
    have heading := (OneLine.append (s := "Project") (by decide) mark).append (t := " ") (by decide)
    exact heading.append (oneLine_columns slots read)
  | aggregate groupKey outputs =>
    obtain ⟨keys, columns⟩ := List.forall_mem_append.1 read
    have key := OneLine.append (s := "Aggregate group_key=") (by decide) (oneLine_expressions keys)
    exact (key.append (by decide)).append (oneLine_columns slots columns)
  | filter predicates | having predicates | qualify predicates =>
    exact .append (by decide) (oneLine_expressions read)
  | limit count offset =>
    have heading := OneLine.append (s := "Limit ") (by decide) (oneLine_natural count.toNat)
    exact (heading.append (by decide)).append (oneLine_natural offset.toNat)

theorem Join.oneLine_header {j : Join} (names : ∀ s ∈ (Node.join j).slots, OneLine s.name) :
    OneLine j.header := by
  have kind : OneLine j.kind.render := by cases j.kind <;> decide
  refine (OneLine.append (by decide) kind).append ?_
  split
  · rename_i e condition
    have read : ∀ s ∈ e.slots, OneLine s.name := fun s mem =>
      names s (List.mem_flatMap.2 ⟨e, by simp [condition], mem⟩)
    exact .append (by decide) (e.oneLine_render read)
  · decide

namespace Plan

/-- No name of a relation or of a slot, wherever it occurs, has a line break in it. -/
def NamesOnOneLine (p : Plan) : Prop :=
  (∀ r, .relation r ∈ p.nodes → OneLine r.name) ∧
    ∀ s ∈ p.nodes.flatMap Node.slots, OneLine s.name

def outline (depth : Nat) : Plan → List (Nat × Plan)
  | p@(get _) => [(depth, p)]
  | p@(unary _ q) => (depth, p) :: q.outline (depth + 1)
  | p@(join _ q r) => (depth, p) :: (q.outline (depth + 1) ++ r.outline (depth + 1))

def line (entry : Nat × Plan) : String :=
  Document.blanks (2 * entry.1) ++ entry.2.header

/-- Trees of one shape, with operators of one kind under the same header at each place. -/
inductive Resembles : Plan → Plan → Prop
  | get {r s : Relation} (header : r.header = s.header) : Resembles (get r) (get s)
  | unary {o o' : Operator} {p q : Plan} (kind : o.kind = o'.kind) (header : o.header = o'.header)
      (below : Resembles p q) : Resembles (unary o p) (unary o' q)
  | join {j j' : Join} {p p' q q' : Plan} (header : j.header = j'.header)
      (left : Resembles p p') (right : Resembles q q') : Resembles (join j p q) (join j' p' q')

variable {p q : Plan}

theorem map_snd_outline (p : Plan) (depth : Nat) : (p.outline depth).map Prod.snd = p.preorder := by
  induction p generalizing depth with
  | get r => rfl
  | unary o p ih => simp [outline, preorder, ih]
  | join j l r ihl ihr => simp [outline, preorder, ihl, ihr]

theorem outline_ne_nil (p : Plan) (depth : Nat) : p.outline depth ≠ [] := by
  cases p <;> simp [outline]

theorem layout_inset (above input : Document) (indentation : Nat) :
    (inset above input).layout indentation =
      above.layout indentation ++ "\n" ++
        (Document.blanks (indentation + 2) ++ input.layout (indentation + 2)) := by
  simp [inset, Document.concat, Document.layout, String.append_assoc]

theorem layout_document (p : Plan) (depth : Nat) :
    Document.blanks (2 * depth) ++ p.document.layout (2 * depth) =
      "\n".intercalate ((p.outline depth).map line) := by
  induction p generalizing depth with
  | get r => simp [document, Document.layout, outline, line, header]
  | unary o p ih =>
    rw [document, layout_inset, ← Nat.mul_succ, ih (depth + 1), outline, List.map_cons,
      String.intercalate_cons_of_ne_nil (by simp [outline_ne_nil])]
    simp [Document.layout, line, header, String.append_assoc]
  | join j l r ihl ihr =>
    rw [document, layout_inset, layout_inset, ← Nat.mul_succ, ihl (depth + 1), ihr (depth + 1),
      outline, List.map_cons, List.map_append,
      String.intercalate_cons_of_ne_nil (by simp [outline_ne_nil]),
      String.intercalate_append_of_ne_nil (by simp [outline_ne_nil]) (by simp [outline_ne_nil])]
    simp [Document.layout, line, header, String.append_assoc]

theorem render_eq (p : Plan) : p.render = "\n".intercalate ((p.outline 0).map line) := by
  rw [← layout_document]
  simp [render, Document.render, Document.blanks]

theorem NamesOnOneLine.header {node : Plan} (names : p.NamesOnOneLine) (mem : node ∈ p.preorder) :
    OneLine node.header := by
  obtain ⟨relations, slots⟩ := names
  have there : node.root ∈ p.nodes := by
    rw [nodes_eq]
    exact List.mem_map_of_mem mem
  have own : ∀ s ∈ node.root.slots, OneLine s.name := fun s held =>
    slots s (List.mem_flatMap.2 ⟨node.root, there, held⟩)
  cases node with
  | get r => exact r.oneLine_header (relations r there) own
  | unary o q => exact o.oneLine_header own
  | join j l r => exact j.oneLine_header own

theorem splitOn_render (names : p.NamesOnOneLine) :
    p.render.toList.splitOn '\n' = (p.outline 0).map fun entry => (line entry).toList := by
  have text : p.render.toList =
      ['\n'].intercalate ((p.outline 0).map fun entry => (line entry).toList) := by
    rw [render_eq, String.toList_intercalate, List.map_map]
    rfl
  rw [text]
  apply List.splitOn_intercalate
  · rw [List.forall_mem_map]
    intro entry mem
    have node : entry.2 ∈ p.preorder := by
      rw [← map_snd_outline p 0]
      exact List.mem_map_of_mem mem
    have plain := names.header node
    simpa [line, Document.blanks, OneLine] using plain
  · simp [outline_ne_nil]

def kindOf : Char → String
  | 'G' => "get" | 'P' => "project" | 'A' => "aggregate" | 'F' => "filter" | 'H' => "having"
  | 'Q' => "qualify" | 'L' => "limit" | _ => "join"

theorem begins_append {c : Char} {s : String} (first : s.toList.head? = some c) (t : String) :
    (s ++ t).toList.head? = some c := by
  simp [String.toList_append, List.head?_append, first]

theorem header_begins (p : Plan) :
    ∃ c, p.header.toList.head? = some c ∧ c ≠ ' ' ∧ kindOf c = p.kind := by
  cases p with
  | get r =>
    have first : "Get ".toList.head? = some 'G' := rfl
    exact ⟨'G', begins_append (begins_append (begins_append first _) _) _, by decide, rfl⟩
  | unary o p =>
    cases o with
    | project projections distinct =>
      have first : "Project".toList.head? = some 'P' := rfl
      exact ⟨'P', begins_append (begins_append (begins_append first _) _) _, by decide, rfl⟩
    | aggregate groupKey outputs =>
      have first : "Aggregate group_key=".toList.head? = some 'A' := rfl
      exact ⟨'A', begins_append (begins_append (begins_append first _) _) _, by decide, rfl⟩
    | filter predicates => exact ⟨'F', begins_append rfl _, by decide, rfl⟩
    | having predicates => exact ⟨'H', begins_append rfl _, by decide, rfl⟩
    | qualify predicates => exact ⟨'Q', begins_append rfl _, by decide, rfl⟩
    | limit count offset =>
      have first : "Limit ".toList.head? = some 'L' := rfl
      exact ⟨'L', begins_append (begins_append (begins_append first _) _) _, by decide, rfl⟩
  | join j l r =>
    have first : "Join ".toList.head? = some 'J' := rfl
    exact ⟨'J', begins_append (begins_append first _) _, by decide, rfl⟩

theorem kind_eq_of_header (same : p.header = q.header) : p.kind = q.kind := by
  obtain ⟨c, first, -, kind⟩ := p.header_begins
  obtain ⟨d, second, -, kind'⟩ := q.header_begins
  have letters : c = d := Option.some.inj (first.symm.trans (same ▸ second))
  rw [← kind, ← kind', letters]

theorem dropWhile_line (entry : Nat × Plan) :
    (line entry).toList.dropWhile (· == ' ') = entry.2.header.toList := by
  obtain ⟨c, first, letter, -⟩ := entry.2.header_begins
  obtain ⟨rest, header⟩ := List.head?_eq_some_iff.1 first
  rw [line, String.toList_append, Document.blanks, String.toList_ofList, header,
    List.dropWhile_append_of_pos (by simp), List.dropWhile_cons_of_neg (by simpa using letter)]

theorem headers_eq_of_render (hp : p.NamesOnOneLine) (hq : q.NamesOnOneLine)
    (same : p.render = q.render) : p.preorder.map header = q.preorder.map header := by
  have stripped {p : Plan} (names : p.NamesOnOneLine) :
      (p.render.toList.splitOn '\n').map (·.dropWhile (· == ' ')) =
        (p.preorder.map header).map String.toList := by
    rw [splitOn_render names, ← map_snd_outline p 0]
    simp [dropWhile_line]
  have lists : (p.preorder.map header).map String.toList =
      (q.preorder.map header).map String.toList := by
    rw [← stripped hp, ← stripped hq, same]
  exact (List.map_inj_right fun _ _ => String.toList_inj.1).1 lists

theorem kind_unary_ne (o : Operator) (p : Plan) :
    (unary o p).kind ≠ "get" ∧ (unary o p).kind ≠ "join" := by
  cases o <;> simp [kind, Operator.kind]

/-- The headers in preorder tell where a tree ends, as a header tells how many inputs follow. -/
theorem resembles_of_headers {xs ys : List String}
    (same : p.preorder.map header ++ xs = q.preorder.map header ++ ys) :
    p.Resembles q ∧ xs = ys := by
  induction p generalizing q xs ys with
  | get r =>
    rw [preorder_eq q] at same
    obtain ⟨root, rest⟩ := List.cons_eq_cons.1 same
    cases q with
    | get s => exact ⟨.get root, rest⟩
    | unary o q => exact absurd (kind_eq_of_header root).symm (kind_unary_ne o q).1
    | join j l r => exact absurd (kind_eq_of_header root) (by simp [kind])
  | unary o p ih =>
    rw [preorder_eq q] at same
    obtain ⟨root, rest⟩ := List.cons_eq_cons.1 same
    cases q with
    | get s => exact absurd (kind_eq_of_header root) (kind_unary_ne o p).1
    | unary o' q =>
      obtain ⟨below, others⟩ := ih (by simpa [children] using rest)
      exact ⟨.unary (kind_eq_of_header root) root below, others⟩
    | join j l r => exact absurd (kind_eq_of_header root) (kind_unary_ne o p).2
  | join j l r ihl ihr =>
    rw [preorder_eq q] at same
    obtain ⟨root, rest⟩ := List.cons_eq_cons.1 same
    cases q with
    | get s => exact absurd (kind_eq_of_header root) (by simp [kind])
    | unary o q => exact absurd (kind_eq_of_header root).symm (kind_unary_ne o q).2
    | join j' l' r' =>
      obtain ⟨left, rest⟩ := ihl (q := l') (by simpa [children] using rest)
      obtain ⟨right, others⟩ := ihr rest
      exact ⟨.join root left right, others⟩

theorem Resembles.document_eq (same : p.Resembles q) : p.document = q.document := by
  induction same with
  | get header => rw [document, document, header]
  | unary _ header _ below => rw [document, document, header, below]
  | join header _ _ left right => rw [document, document, header, left, right]

/-- The text has one line per node, in preorder, its header after two blanks for every operator
above it; and it tells the tree of operators with their headers, and nothing else. -/
theorem render_determines_operators (hp : p.NamesOnOneLine) (hq : q.NamesOnOneLine) :
    p.render.toList.splitOn '\n' =
        (p.outline 0).map (fun (depth, node) =>
          List.replicate (2 * depth) ' ' ++ node.header.toList) ∧
      (p.outline 0).map Prod.snd = p.preorder ∧
      (p.render = q.render ↔ p.Resembles q) := by
  refine ⟨?_, map_snd_outline p 0, fun same => ?_, fun same => ?_⟩
  · rw [splitOn_render hp]
    simp [line, Document.blanks]
  · have headers := headers_eq_of_render hp hq same
    exact (resembles_of_headers (congrArg (· ++ []) headers)).1
  · rw [render, render, same.document_eq]

namespace Sample

def filtered (columns : List Slot) : Plan :=
  .filter (.join ⟨.cross, none⟩ (.get ⟨"r", columns⟩) (.get ⟨"s", []⟩))
    (.ofList [.literal (.text "\n")])

end Sample

open Sample in
/-- A name with a comma in it hides how many columns there are, but no operator. -/
theorem render_determines_operators_comma :
    let p := filtered [⟨2, "a#1, b"⟩]
    let q := filtered [⟨1, "a"⟩, ⟨2, "b"⟩]
    p.NamesOnOneLine ∧ q.NamesOnOneLine ∧ p.render = q.render ∧
      (p.render.toList.splitOn '\n').map List.length = [13, 12, 20, 12] := by
  intro p q
  have relations (columns : List Slot) :
      ∀ r, .relation r ∈ (filtered columns).nodes → OneLine r.name := by
    have plain : OneLine "r" ∧ OneLine "s" := by decide
    simpa [filtered, nodes] using plain
  have one : p.NamesOnOneLine := ⟨relations _, by decide⟩
  have two : q.NamesOnOneLine := ⟨relations _, by decide⟩
  obtain ⟨lines, -, tells⟩ := render_determines_operators one two
  refine ⟨one, two, tells.2 (.unary rfl rfl (.join rfl (.get ?_) (.get rfl))), ?_⟩
  · decide
  · rw [lines]
    decide

end Plan
end QueryPlan
